import KernelIsa.Proofs.Text.Marks
import KernelIsa.Text.Basic

/-!
# Proofs/Text/Lines — lines written and read back

A written line is read back as it is, provided that it has no line feed and does not end in a
carriage return, which would belong to the line end (`lines_ofLines`).  Reading a text gives
stretches of it without line feeds (`infix_of_mem_lines`, `newline_not_mem_of_mem_lines`), and the
lines up to a line feed are those of the text up to it (`lines_append_ended`).  The text behind the
first line feed is what follows a stretch without one (`afterLineFeed?_append`).
-/

namespace KernelIsa.Text

variable {l t rest : Text} {ls : List Text}

/-! ## The first line feed -/

theorem afterLineFeed?_append (h : '\n' ∉ l) (rest : Text) :
    afterLineFeed? (l ++ '\n' :: rest) = some rest := by
  have hcut : splitAround? ['\n'] (l ++ '\n' :: ([] ++ rest)) = some (l, rest) :=
    splitAround?_append_of_not_mem h
  rw [List.nil_append] at hcut
  rw [afterLineFeed?, hcut]
  rfl

theorem afterLineFeed?_eq_none (h : '\n' ∉ l) : afterLineFeed? l = none := by
  rw [afterLineFeed?, splitAround?_singleton_eq_none_iff.mpr h]
  rfl

/-! ## Written lines -/

@[simp] theorem ofLines_nil : ofLines [] = [] := rfl

@[simp] theorem ofLines_cons (l : Text) (ls : List Text) :
    ofLines (l :: ls) = l ++ '\n' :: ofLines ls := by
  simp [ofLines]

@[simp] theorem ofLines_append (ls ls' : List Text) :
    ofLines (ls ++ ls') = ofLines ls ++ ofLines ls' := by
  simp [ofLines]

/-! ## Lines read -/

@[simp] theorem lines_newline (t : Text) : lines ('\n' :: t) = [] :: lines t := rfl

/-- A character that ends no line belongs to the first line. -/
theorem lines_cons {c : Char} (hc : c ≠ '\n') (hr : c = '\r' → t.head? ≠ some '\n') :
    lines (c :: t) = match lines t with
      | [] => [[c]]
      | line :: rest => (c :: line) :: rest := by
  rw [lines.eq_def]
  split
  · next h => cases h
  · next h => exact absurd (List.cons.inj h).1 hc
  · next h =>
    obtain ⟨hcr, hfeed⟩ := List.cons.inj h
    exact absurd (by rw [hfeed]; rfl) (hr hcr)
  · next h =>
    obtain ⟨rfl, rfl⟩ := List.cons.inj h
    rfl

theorem lines_append (hl : '\n' ∉ l) (hr : l.getLast? ≠ some '\r') :
    lines (l ++ '\n' :: t) = l :: lines t := by
  induction l with
  | nil => rfl
  | cons c l ih =>
    have hc : c ≠ '\n' := fun h => hl (h ▸ List.mem_cons_self)
    have hl' : '\n' ∉ l := fun h => hl (List.mem_cons_of_mem _ h)
    cases l with
    | nil =>
      rw [List.singleton_append, lines_cons hc fun h => absurd (by simp [h]) hr, lines_newline]
    | cons d l =>
      have hd : d ≠ '\n' := fun h => hl' (h ▸ List.mem_cons_self)
      rw [List.cons_append, lines_cons hc fun _ => by simpa using hd,
        ih hl' (by rwa [List.getLast?_cons_cons] at hr)]

theorem lines_append_return (hl : '\n' ∉ l) (t : Text) :
    lines (l ++ '\r' :: '\n' :: t) = l :: lines t := by
  induction l with
  | nil => rfl
  | cons c l ih =>
    have hc : c ≠ '\n' := fun h => hl (h ▸ List.mem_cons_self)
    have hl' : '\n' ∉ l := fun h => hl (List.mem_cons_of_mem _ h)
    have hnext : (l ++ '\r' :: '\n' :: t).head? ≠ some '\n' := by
      cases l with
      | nil => simp
      | cons d l => simpa using fun h : d = '\n' => hl' (h ▸ List.mem_cons_self)
    rw [List.cons_append, lines_cons hc fun _ => hnext, ih hl']

/-- A line feed ends the first line, whatever follows. -/
theorem exists_lines_append (hl : '\n' ∉ l) :
    ∃ first, ∀ t, lines (l ++ '\n' :: t) = first :: lines t := by
  by_cases hr : l.getLast? = some '\r'
  · obtain ⟨first, rfl⟩ := List.getLast?_eq_some_iff.mp hr
    refine ⟨first, fun t => ?_⟩
    rw [List.append_assoc, List.singleton_append]
    exact lines_append_return (fun h => hl (List.mem_append_left _ h)) t
  · exact ⟨l, fun t => lines_append hl hr⟩

/-- A text without a line feed is one line at most. -/
theorem length_lines_le_one (hl : '\n' ∉ l) : (lines l).length ≤ 1 := by
  fun_induction lines l with
  | case1 => exact Nat.zero_le 1
  | case2 | case3 => simp at hl
  | case4 => exact Nat.le_refl 1
  | case5 c t _ _ line rest hline ih =>
    rw [hline] at ih
    exact ih fun h => hl (List.mem_cons_of_mem _ h)

/-- **Written lines are read back.** -/
theorem lines_ofLines (h : ∀ l ∈ ls, '\n' ∉ l ∧ l.getLast? ≠ some '\r') :
    lines (ofLines ls) = ls := by
  induction ls with
  | nil => rfl
  | cons l ls ih =>
    obtain ⟨hl, hls⟩ := List.forall_mem_cons.mp h
    rw [ofLines_cons, lines_append hl.1 hl.2, ih hls]

/-- A written line that ends in no carriage return is read back among any others. -/
theorem mem_lines_ofLines (h : ∀ l ∈ ls, '\n' ∉ l) (hl : l ∈ ls) (hr : l.getLast? ≠ some '\r') :
    l ∈ lines (ofLines ls) := by
  induction ls with
  | nil => cases hl
  | cons first ls ih =>
    obtain ⟨hfirst, hls⟩ := List.forall_mem_cons.mp h
    rw [ofLines_cons]
    rcases List.mem_cons.mp hl with rfl | hl
    · rw [lines_append hfirst hr]
      exact List.mem_cons_self
    · obtain ⟨head, hhead⟩ := exists_lines_append hfirst
      rw [hhead]
      exact List.mem_cons_of_mem _ (ih hls hl)

/-- The first line is the head of the text, and every line a stretch of it. -/
theorem infix_of_lines (t : Text) :
    (∀ l ∈ (lines t).head?, l <+: t) ∧ ∀ l ∈ lines t, l <:+: t := by
  fun_induction lines t with
  | case1 => simp
  | case2 t ih =>
    refine ⟨fun l hl => ?_, fun l hl => ?_⟩
    · obtain rfl : [] = l := by simpa using hl
      exact List.nil_prefix
    · rcases List.mem_cons.mp hl with rfl | hl
      · exact List.nil_infix
      · exact List.infix_cons (ih.2 l hl)
  | case3 t ih =>
    refine ⟨fun l hl => ?_, fun l hl => ?_⟩
    · obtain rfl : [] = l := by simpa using hl
      exact List.nil_prefix
    · rcases List.mem_cons.mp hl with rfl | hl
      · exact List.nil_infix
      · exact List.infix_cons (List.infix_cons (ih.2 l hl))
  | case4 c t _ _ h ih => simp [List.singleton_infix_iff]
  | case5 c t _ _ line rest h ih =>
    rw [h] at ih
    have hline : c :: line <+: c :: t := List.cons_prefix_cons.mpr ⟨rfl, ih.1 line rfl⟩
    refine ⟨fun l hl => ?_, fun l hl => ?_⟩
    · obtain rfl : c :: line = l := by simpa using hl
      exact hline
    · rcases List.mem_cons.mp hl with rfl | hl
      · exact hline.isInfix
      · exact List.infix_cons (ih.2 l (List.mem_cons_of_mem _ hl))

theorem infix_of_mem_lines (h : l ∈ lines t) : l <:+: t := (infix_of_lines t).2 l h

theorem newline_not_mem_of_mem_lines (h : l ∈ lines t) : '\n' ∉ l := by
  fun_induction lines t generalizing l with
  | case1 => cases h
  | case2 t ih | case3 t ih =>
    rcases List.mem_cons.mp h with rfl | h
    · exact List.not_mem_nil
    · exact ih h
  | case4 c t hc _ hnil ih =>
    obtain rfl := List.mem_singleton.mp h
    exact fun h => hc (List.mem_singleton.mp h).symm
  | case5 c t hc _ line rest hline ih =>
    rw [hline] at ih
    rcases List.mem_cons.mp h with rfl | h
    · rw [List.mem_cons, not_or]
      exact ⟨fun h => hc h.symm, ih List.mem_cons_self⟩
    · exact ih (List.mem_cons_of_mem _ h)

/-! ## Ended lines -/

/-- The ended lines of a text and what follows them make up the text. -/
theorem ofLines_terminated (t : Text) : ofLines (terminated t).1 ++ (terminated t).2 = t := by
  induction t with
  | nil => rfl
  | cons c t ih =>
    rw [terminated]
    dsimp only
    split
    · next hc =>
      rw [hc, ofLines_cons, List.nil_append, List.cons_append, ih]
    · split
      · next h =>
        rw [h, ofLines_nil, List.nil_append] at ih
        rw [ofLines_nil, List.nil_append, ih]
      · next piece pieces h =>
        rw [h, ofLines_cons] at ih
        rw [ofLines_cons, List.cons_append, List.cons_append, ih]

theorem newline_not_mem_terminated (t : Text) :
    (∀ l ∈ (terminated t).1, '\n' ∉ l) ∧ '\n' ∉ (terminated t).2 := by
  induction t with
  | nil => simp [terminated]
  | cons c t ih =>
    rw [terminated]
    dsimp only
    split
    · simpa using ih
    · next hc =>
      have hc' : ¬ '\n' = c := fun h => hc h.symm
      split
      · exact ⟨by simp, by simpa [hc'] using ih.2⟩
      · next piece pieces h =>
        rw [h, List.forall_mem_cons] at ih
        exact ⟨List.forall_mem_cons.mpr ⟨by simpa [hc'] using ih.1.1, ih.1.2⟩, ih.2⟩

theorem terminated_append (hl : '\n' ∉ l) (t : Text) :
    terminated (l ++ '\n' :: t) = (l :: (terminated t).1, (terminated t).2) := by
  induction l with
  | nil => simp [terminated]
  | cons c l ih =>
    have hc : c ≠ '\n' := fun h => hl (h ▸ List.mem_cons_self)
    rw [List.cons_append, terminated, ih fun h => hl (List.mem_cons_of_mem _ h)]
    simp [hc]

/-- Lines written are the ended lines of what was written. -/
theorem terminated_ofLines (h : ∀ l ∈ ls, '\n' ∉ l) : terminated (ofLines ls) = (ls, []) := by
  induction ls with
  | nil => rfl
  | cons l ls ih =>
    obtain ⟨hl, hls⟩ := List.forall_mem_cons.mp h
    rw [ofLines_cons, terminated_append hl, ih hls]

/-- Written lines come first, whatever follows. -/
theorem lines_ofLines_append (h : ∀ l ∈ ls, '\n' ∉ l) (rest : Text) :
    lines (ofLines ls ++ rest) = lines (ofLines ls) ++ lines rest := by
  induction ls with
  | nil => rfl
  | cons l ls ih =>
    obtain ⟨hl, hls⟩ := List.forall_mem_cons.mp h
    obtain ⟨first, hfirst⟩ := exists_lines_append hl
    rw [ofLines_cons, List.append_assoc, List.cons_append, hfirst, hfirst, ih hls,
      List.cons_append]

/-- **The lines of a text that is empty or ends in a line feed come first**, whatever follows. -/
theorem lines_append_ended (ht : ∀ c ∈ t.getLast?, c = '\n') (rest : Text) :
    lines (t ++ rest) = lines t ++ lines rest := by
  obtain ⟨hls, hrest⟩ := newline_not_mem_terminated t
  have hsplit := ofLines_terminated t
  have hnil : (terminated t).2 = [] := by
    rcases List.eq_nil_or_concat (terminated t).2 with h | ⟨last, c, h⟩
    · exact h
    · rw [h, List.concat_eq_append] at hrest hsplit
      have hc : c = '\n' := ht c (by rw [← hsplit, ← List.append_assoc]; simp)
      exact absurd hc fun hc => hrest (by simp [hc])
  rw [hnil, List.append_nil] at hsplit
  rw [← hsplit]
  exact lines_ofLines_append hls rest

end KernelIsa.Text
