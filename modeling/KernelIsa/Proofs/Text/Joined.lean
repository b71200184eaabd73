import KernelIsa.Proofs.Text.Lines

/-!
# Proofs/Text/Joined — lines joined and lines ended

Joined lines are ended lines without the last line feed (`ofLines_eq_joined`); groups of lines may
be joined first (`joined_map_joined`), and ended lines joined have a blank line between the groups
(`joined_map_ofLines`).
-/

namespace KernelIsa

section

variable {α β : Type} {a sep : α} {ls : List (List α)}

theorem mem_joined (h : a ∈ joined sep ls) : a = sep ∨ ∃ l ∈ ls, a ∈ l := by
  induction ls with
  | nil => cases h
  | cons l ls ih =>
    cases ls with
    | nil => exact .inr ⟨l, List.mem_cons_self, h⟩
    | cons m ls =>
      rw [joined_cons _ _ (List.cons_ne_nil _ _)] at h
      rcases List.mem_append.mp h with h | h
      · exact .inr ⟨l, List.mem_cons_self, h⟩
      · rcases List.mem_cons.mp h with h | h
        · exact .inl h
        · exact (ih h).imp_right fun ⟨l', hl', ha⟩ => ⟨l', List.mem_cons_of_mem _ hl', ha⟩

theorem map_joined (f : α → β) (sep : α) (ls : List (List α)) :
    (joined sep ls).map f = joined (f sep) (ls.map (List.map f)) := by
  induction ls with
  | nil => rfl
  | cons l ls ih =>
    cases ls with
    | nil => rfl
    | cons m ls =>
      have hmap : (m :: ls).map (List.map f) ≠ [] := List.cons_ne_nil _ _
      rw [joined_cons _ _ (List.cons_ne_nil _ _), List.map_append, List.map_cons, ih,
        ← joined_cons _ _ hmap]
      rfl

end

namespace Text

variable {ls ls' : List Text}

theorem byteLength_ofLines_cons (l : Text) (ls : List Text) :
    byteLength (ofLines (l :: ls)) = byteLength l + 1 + byteLength (ofLines ls) := by
  rw [ofLines_cons, byteLength_append, byteLength_cons]
  have hfeed : '\n'.utf8Size = 1 := rfl
  omega

theorem joined_append (h : ls' ≠ []) : joined '\n' (ls ++ ls') = ofLines ls ++ joined '\n' ls' := by
  induction ls with
  | nil => rfl
  | cons l ls ih =>
    rw [List.cons_append, joined_cons _ _ (by simp [h]), ih, ofLines_cons, List.append_assoc,
      List.cons_append]

theorem ofLines_eq_joined (h : ls ≠ []) : ofLines ls = joined '\n' ls ++ ['\n'] := by
  induction ls with
  | nil => exact absurd rfl h
  | cons l ls ih =>
    cases ls with
    | nil => simp [joined]
    | cons m ls => rw [ofLines_cons, joined_cons _ _ (by simp), ih (by simp)]; simp

/-- **Joined lines lack the last line feed.** -/
theorem byteLength_joined (h : ls ≠ []) :
    byteLength (ofLines ls) = byteLength (joined '\n' ls) + 1 := by
  rw [ofLines_eq_joined h, byteLength_append]
  rfl

/-- Joined lines are as long in any order. -/
theorem byteLength_joined_perm (h : ls.Perm ls') :
    byteLength (joined '\n' ls) = byteLength (joined '\n' ls') := by
  have hended : byteLength (ofLines ls) = byteLength (ofLines ls') := by
    induction h with
    | nil => rfl
    | cons l _ ih => rw [byteLength_ofLines_cons, byteLength_ofLines_cons, ih]
    | swap l m ls =>
      simp only [byteLength_ofLines_cons]
      omega
    | trans _ _ ih ih' => exact ih.trans ih'
  by_cases hne : ls = []
  · rw [hne] at h
    rw [hne, ← h.nil_eq]
  · have hne' : ls' ≠ [] := fun hnil => hne (by rw [hnil] at h; exact h.eq_nil)
    have hls := byteLength_joined hne
    have hls' := byteLength_joined hne'
    omega

/-- Lines joined in groups are the lines joined. -/
theorem joined_map_joined {lss : List (List Text)} (h : ∀ ls ∈ lss, ls ≠ []) :
    joined '\n' (lss.map (joined '\n')) = joined '\n' lss.flatten := by
  induction lss with
  | nil => rfl
  | cons ls lss ih =>
    obtain ⟨hls, hlss⟩ := List.forall_mem_cons.mp h
    cases lss with
    | nil => simp [joined]
    | cons ms lss =>
      have hne : (ms :: lss).flatten ≠ [] := by
        simp [(List.forall_mem_cons.mp hlss).1]
      have hflat : (ls :: ms :: lss).flatten = ls ++ (ms :: lss).flatten := rfl
      rw [List.map_cons, joined_cons _ _ (by simp), ih hlss, hflat, joined_append hne,
        ofLines_eq_joined hls, List.append_assoc, List.singleton_append]

/-- Ended lines in groups, a blank line between the groups. -/
theorem joined_map_ofLines (lss : List (List Text)) :
    joined '\n' (lss.map ofLines) = ofLines (joined [] lss) := by
  induction lss with
  | nil => rfl
  | cons ls lss ih =>
    cases lss with
    | nil => rfl
    | cons ms lss =>
      rw [List.map_cons, joined_cons _ _ (by simp), ih, joined_cons _ _ (List.cons_ne_nil _ _),
        ofLines_append, ofLines_cons, List.nil_append]

end Text

end KernelIsa
