import KernelIsa.Text.Basic
import Mathlib.Data.List.Infix

/-!
# Proofs/Text/Marks — where a mark stands in a text, and where a byte offset falls

`splitAround?` cuts at the *first* place of a mark: it fails exactly on the texts that do not hold
the mark (`splitAround?_eq_none_iff`), and nothing in front of the cut holds it
(`not_infix_of_splitAround?`).  A stretch without the mark, ended by a character that is no part of
the mark, is passed over (`splitAround?_append_of_not_infix`); so is a stretch without the mark's
first character (`splitAround?_append_of_not_mem`).  A mark is found where it stands unless one is
complete in front of its last character (`splitAround?_append_mark`).  What is put at either end
without a character of the mark does not move the cut (`splitAround?_append_of_disjoint`).

An offset that is the byte length of a part of the text falls on a boundary: the text is cut there
into its parts (`dropBytes?_append`, `slice?_append`).
-/

namespace KernelIsa.Text

variable {mark t p s : Text} {c : Char}

/-! ## A mark beside a character outside it -/

theorem prefix_append_cons_iff (hc : c ∉ mark) : mark <+: p ++ c :: t ↔ mark <+: p := by
  refine ⟨fun ⟨rest, h⟩ => ?_, fun h => h.trans (List.prefix_append _ _)⟩
  rcases List.append_eq_append_iff.mp h with ⟨x, rfl, -⟩ | ⟨x, hx, hr⟩
  · exact List.prefix_append _ _
  · cases x with
    | nil => exact ⟨[], by simpa using hx⟩
    | cons d x =>
      obtain ⟨rfl, -⟩ := List.cons_eq_cons.mp hr
      exact absurd (hx ▸ by simp) hc

/-- A mark lies on one side of a character outside it. -/
theorem infix_append_cons_iff (hmark : mark ≠ []) (hc : c ∉ mark) :
    mark <:+: p ++ c :: t ↔ mark <:+: p ∨ mark <:+: t := by
  induction p with
  | nil =>
    have hpre : ¬ mark <+: c :: t := fun h => hmark (by
      simpa using (prefix_append_cons_iff (p := []) hc).mp h)
    simp [List.infix_cons_iff, hpre, hmark]
  | cons d p ih =>
    rw [List.cons_append, List.infix_cons_iff, ih, ← List.cons_append,
      prefix_append_cons_iff hc, List.infix_cons_iff, or_assoc]

/-- What holds no character of a nonempty mark can be cut off behind a text without losing one. -/
theorem infix_append_iff_of_disjoint (hmark : mark ≠ []) (hs : ∀ c ∈ s, c ∉ mark) :
    mark <:+: p ++ s ↔ mark <:+: p := by
  induction s generalizing p with
  | nil => simp
  | cons c s ih =>
    have hc : c ∉ mark := hs c List.mem_cons_self
    have hs' : ∀ d ∈ s, d ∉ mark := fun d hd => hs d (List.mem_cons_of_mem _ hd)
    rw [infix_append_cons_iff hmark hc]
    refine ⟨fun h => h.resolve_right fun h => ?_, .inl⟩
    obtain ⟨m, hm⟩ := List.exists_mem_of_ne_nil mark hmark
    exact hs' m (h.subset hm) hm

/-- A mark without a character of `p` does not start inside `p`. -/
theorem infix_append_iff_of_disjoint_left (hmark : mark ≠ []) (hp : ∀ c ∈ p, c ∉ mark) :
    mark <:+: p ++ t ↔ mark <:+: t := by
  induction p with
  | nil => simp
  | cons c p ih =>
    have hc : c ∉ mark := hp c List.mem_cons_self
    have h := infix_append_cons_iff (p := []) (t := p ++ t) hmark hc
    rw [List.nil_append] at h
    rw [List.cons_append, h, ih fun d hd => hp d (List.mem_cons_of_mem _ hd)]
    simp [hmark]

/-- A pair of characters does not reach to an end that is not its second one. -/
theorem infix_concat_iff_of_ne {a b d : Char} (hd : b ≠ d) :
    [a, b] <:+: t ++ [d] ↔ [a, b] <:+: t := by
  rw [List.infix_concat_iff, or_iff_right]
  rintro ⟨u, hu⟩
  have hlast := congrArg List.getLast? hu
  simp only [List.getLast?_append, List.getLast?_cons_cons, List.getLast?_singleton,
    Option.some_or, Option.some.injEq] at hlast
  exact hd hlast

/-! ## The first place of a mark -/

theorem dropLead?_append (mark t : Text) : dropLead? mark (mark ++ t) = some t :=
  dropLead?_eq_some_iff.mpr rfl

theorem dropLead?_eq_none_iff : dropLead? mark t = none ↔ ¬ mark <+: t := by
  rw [Option.eq_none_iff_forall_ne_some]
  refine ⟨fun h ⟨rest, hrest⟩ => h rest (dropLead?_eq_some_iff.mpr hrest.symm), fun h rest hr => ?_⟩
  exact h ⟨rest, (dropLead?_eq_some_iff.mp hr).symm⟩

theorem startsWith_iff : startsWith mark t = true ↔ mark <+: t := by
  rw [startsWith, Option.isSome_iff_ne_none, ne_eq, dropLead?_eq_none_iff, Decidable.not_not]

/-- **A cut fails exactly where there is no mark.** -/
theorem splitAround?_eq_none_iff : splitAround? mark t = none ↔ ¬ mark <:+: t := by
  induction t with
  | nil => simp [splitAround?]
  | cons c t ih =>
    rw [splitAround?, List.infix_cons_iff]
    cases h : dropLead? mark (c :: t) with
    | none => simp [dropLead?_eq_none_iff.mp h, ih]
    | some rest =>
      have hpre : mark <+: c :: t := ⟨rest, (dropLead?_eq_some_iff.mp h).symm⟩
      simp [hpre]

theorem hasMark_iff : hasMark mark t = true ↔ mark <:+: t := by
  rw [hasMark, Option.isSome_iff_ne_none, ne_eq, splitAround?_eq_none_iff, Decidable.not_not]

theorem splitAround?_singleton_eq_none_iff : splitAround? [c] t = none ↔ c ∉ t := by
  rw [splitAround?_eq_none_iff, List.singleton_infix_iff]

/-- **The cut is at the first place of the mark.** -/
theorem not_infix_of_splitAround? {before after : Text} (hmark : mark ≠ [])
    (h : splitAround? mark t = some (before, after)) : ¬ mark <:+: before := by
  induction t generalizing before with
  | nil =>
    have : before = [] := by
      rw [splitAround?] at h
      split at h <;> simp_all
    simpa [this] using hmark
  | cons c t ih =>
    have heq := splitAround?_eq_some h
    rw [splitAround?] at h
    cases hlead : dropLead? mark (c :: t) with
    | some rest =>
      obtain rfl : before = [] := by simp_all
      simpa using hmark
    | none =>
      rw [hlead] at h
      obtain ⟨parts, hparts, hp⟩ := Option.map_eq_some_iff.mp h
      obtain ⟨rfl, rfl⟩ : c :: parts.1 = before ∧ parts.2 = after := by simpa using hp
      rw [List.infix_cons_iff, not_or]
      refine ⟨fun hpre => dropLead?_eq_none_iff.mp hlead ?_, ih hparts⟩
      rw [heq, List.append_assoc]
      exact hpre.trans (List.prefix_append _ _)

/-- A stretch without the mark's first character is passed over. -/
theorem splitAround?_append_of_not_mem {m : Char} (h : m ∉ p) :
    splitAround? (m :: mark) (p ++ m :: (mark ++ t)) = some (p, t) := by
  induction p with
  | nil =>
    rw [List.nil_append, splitAround?, ← List.cons_append, dropLead?_append]
  | cons c p ih =>
    have hc : ¬ m = c := fun e => h (e ▸ List.mem_cons_self)
    rw [List.cons_append, splitAround?, dropLead?, if_neg hc,
      ih fun hm => h (List.mem_cons_of_mem _ hm)]
    rfl

/-- **A mark is found where it stands**, if none is complete in front of its last character. -/
theorem splitAround?_append_mark (h : ¬ mark <:+: p ++ mark.dropLast) (t : Text) :
    splitAround? mark (p ++ mark ++ t) = some (p, t) := by
  induction p with
  | nil =>
    obtain ⟨m, rest, rfl⟩ := List.exists_cons_of_ne_nil fun hnil : mark = [] =>
      h (hnil ▸ List.nil_infix)
    rw [List.nil_append, List.cons_append, splitAround?, ← List.cons_append, dropLead?_append]
  | cons c p ih =>
    have hfront : c :: p ++ mark.dropLast <+: c :: p ++ mark ++ t :=
      ((List.prefix_append_right_inj _).mpr (List.dropLast_prefix mark)).trans
        (List.prefix_append _ _)
    have hlength : mark.length ≤ (c :: p ++ mark.dropLast).length := by
      rw [List.length_append, List.length_cons, List.length_dropLast]
      omega
    have hlead : dropLead? mark (c :: (p ++ mark ++ t)) = none := dropLead?_eq_none_iff.mpr
      fun hpre => h (List.prefix_of_prefix_length_le hpre hfront hlength).isInfix
    rw [List.cons_append, List.cons_append, splitAround?, hlead,
      ih fun hin => h (hin.trans (List.suffix_cons _ _).isInfix)]
    rfl

/-- A stretch without the mark, ended by a character outside the mark, is passed over. -/
theorem splitAround?_append_of_not_infix (hp : ¬ mark <:+: p) (hc : c ∉ mark) :
    splitAround? mark (p ++ c :: t)
      = (splitAround? mark t).map fun parts => (p ++ c :: parts.1, parts.2) := by
  induction p with
  | nil =>
    have hlead : dropLead? mark (c :: t) = none := by
      rw [dropLead?_eq_none_iff, ← List.nil_append (c :: t), prefix_append_cons_iff hc]
      exact fun h => hp h.isInfix
    rw [List.nil_append, splitAround?, hlead]
    rfl
  | cons d p ih =>
    have hlead : dropLead? mark (d :: p ++ c :: t) = none := by
      rw [dropLead?_eq_none_iff, prefix_append_cons_iff hc]
      exact fun h => hp h.isInfix
    rw [List.cons_append, splitAround?, ← List.cons_append, hlead,
      ih fun h => hp (h.trans (List.suffix_cons _ _).isInfix)]
    cases splitAround? mark t <;> rfl

/-- What is put behind a text does not move the first place of a mark in it. -/
theorem splitAround?_append {before after : Text} (h : splitAround? mark p = some (before, after))
    (t : Text) : splitAround? mark (p ++ t) = some (before, after ++ t) := by
  induction p generalizing before with
  | nil =>
    have hmark : mark = [] := by
      rw [splitAround?] at h
      split at h <;> simp_all
    have hparts : [] = before ∧ [] = after := by simpa [splitAround?, hmark] using h
    obtain ⟨rfl, rfl⟩ := hparts
    cases t <;> simp [splitAround?, hmark, dropLead?]
  | cons c p ih =>
    have hlen : mark.length ≤ (c :: p).length := by
      rw [splitAround?_eq_some h]
      simp only [List.length_append]
      omega
    rw [splitAround?] at h
    rw [List.cons_append, splitAround?]
    cases hlead : dropLead? mark (c :: p) with
    | some rest =>
      rw [hlead] at h
      have hparts : [] = before ∧ rest = after := by simpa using h
      obtain ⟨rfl, rfl⟩ := hparts
      rw [← List.cons_append, dropLead?_eq_some_iff.mp hlead, List.append_assoc, dropLead?_append]
    | none =>
      rw [hlead] at h
      obtain ⟨parts, hparts, hp⟩ := Option.map_eq_some_iff.mp h
      obtain ⟨rfl, rfl⟩ : c :: parts.1 = before ∧ parts.2 = after := by simpa using hp
      have hnone : dropLead? mark (c :: (p ++ t)) = none := by
        rw [dropLead?_eq_none_iff] at hlead ⊢
        exact fun hpre => hlead
          (List.prefix_of_prefix_length_le hpre (List.prefix_append (c :: p) t) hlen)
      rw [hnone, ih hparts]
      rfl

/-- What holds no character of a mark moves with the part it is put in front of. -/
theorem splitAround?_append_of_disjoint_left (hmark : mark ≠ []) (hp : ∀ c ∈ p, c ∉ mark)
    (t : Text) : splitAround? mark (p ++ t)
      = (splitAround? mark t).map fun parts => (p ++ parts.1, parts.2) := by
  induction p with
  | nil => exact Option.map_id'.symm
  | cons c p ih =>
    obtain ⟨hc, hp⟩ := List.forall_mem_cons.mp hp
    have hstep : splitAround? mark ([] ++ c :: (p ++ t)) = _ :=
      splitAround?_append_of_not_infix (by simpa using hmark) hc
    rw [List.nil_append] at hstep
    rw [List.cons_append, hstep, ih hp, Option.map_map]
    rfl

theorem splitAround?_append_of_disjoint (hmark : mark ≠ []) (hs : ∀ c ∈ s, c ∉ mark) (t : Text) :
    splitAround? mark (t ++ s)
      = (splitAround? mark t).map fun parts => (parts.1, parts.2 ++ s) := by
  cases hcut : splitAround? mark t with
  | none =>
    rw [splitAround?_eq_none_iff] at hcut
    exact splitAround?_eq_none_iff.mpr (mt (infix_append_iff_of_disjoint hmark hs).mp hcut)
  | some parts => exact splitAround?_append hcut s

/-- What stands behind a mark anywhere stands behind the first one. -/
theorem mem_of_splitAround? {before after front behind : Text} (hmark : mark ≠ []) (hc : c ∉ mark)
    (h : splitAround? mark t = some (before, after)) (ht : t = front ++ mark ++ behind)
    (hmem : c ∈ behind) : c ∈ after := by
  obtain ⟨between, rest, rfl⟩ := List.append_of_mem hmem
  have hcut : before ++ (mark ++ after) = front ++ mark ++ between ++ c :: rest := by
    rw [← List.append_assoc, ← splitAround?_eq_some h, ht, List.append_assoc _ between]
  have hafter (hmem : c ∈ mark ++ after) : c ∈ after := (List.mem_append.mp hmem).resolve_left hc
  rcases List.append_eq_append_iff.mp hcut with ⟨y, -, hy⟩ | ⟨y, hy, hy'⟩
  · exact hafter (hy ▸ List.mem_append_right y List.mem_cons_self)
  · cases y with
    | nil => exact hafter (hy' ▸ List.mem_cons_self)
    | cons d y =>
      -- the first part would hold the mark in front of the character
      refine absurd ?_ (not_infix_of_splitAround? hmark h)
      rw [hy, List.append_assoc]
      exact (List.infix_append front mark _)

/-! ## Endings -/

theorem dropEnding?_eq_some_iff {ending rest : Text} :
    dropEnding? ending t = some rest ↔ t = rest ++ ending := by
  rw [dropEnding?, Option.map_eq_some_iff]
  constructor
  · rintro ⟨r, hr, rfl⟩
    rw [← List.reverse_reverse t, dropLead?_eq_some_iff.mp hr]
    simp
  · rintro rfl
    exact ⟨rest.reverse, by rw [List.reverse_append, dropLead?_append], rest.reverse_reverse⟩

theorem dropEnding?_eq_none_iff {ending : Text} : dropEnding? ending t = none ↔ ¬ ending <:+ t := by
  rw [Option.eq_none_iff_forall_ne_some]
  refine ⟨fun h ⟨r, hr⟩ => h r (dropEnding?_eq_some_iff.mpr hr.symm), fun h rest hr => ?_⟩
  exact h ⟨rest, (dropEnding?_eq_some_iff.mp hr).symm⟩

/-! ## Byte offsets -/

theorem dropBytes?_zero (t : Text) : dropBytes? 0 t = some t := by
  cases t <;> rfl

theorem takeBytes?_zero (t : Text) : takeBytes? 0 t = some [] := by
  cases t <;> rfl

theorem dropBytes?_append (a b : Text) : dropBytes? (byteLength a) (a ++ b) = some b := by
  induction a with
  | nil => exact dropBytes?_zero b
  | cons d a ih =>
    have hd := d.utf8Size_pos
    rw [byteLength_cons, List.cons_append, dropBytes?, if_neg (by omega), if_pos (by omega),
      Nat.add_sub_cancel_left, ih]

theorem takeBytes?_append (a b : Text) : takeBytes? (byteLength a) (a ++ b) = some a := by
  induction a with
  | nil => exact takeBytes?_zero b
  | cons d a ih =>
    have hd := d.utf8Size_pos
    rw [byteLength_cons, List.cons_append, takeBytes?, if_neg (by omega), if_pos (by omega),
      Nat.add_sub_cancel_left, ih]
    rfl

/-- **The bytes between two parts are the part between them.** -/
theorem slice?_append (a b c : Text) :
    slice? (byteLength a) (byteLength a + byteLength b) (a ++ b ++ c) = some b := by
  rw [slice?, if_pos (Nat.le_add_right _ _), List.append_assoc, dropBytes?_append,
    Nat.add_sub_cancel_left]
  exact takeBytes?_append b c

theorem byteLength_le_of_sublist {s t : Text} (h : s.Sublist t) : byteLength s ≤ byteLength t := by
  induction h with
  | slnil => exact Nat.le_refl _
  | cons c _ ih => exact Nat.le_trans ih (Nat.le_add_left _ _)
  | cons_cons c _ ih => exact Nat.add_le_add_left ih _

end KernelIsa.Text
