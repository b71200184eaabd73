import KernelIsa.Listing.Registers

/-!
# Proofs/Listing/RegisterLimit — where counting registers leaves 64 bits

A fragment uses one register more than the highest index that it names.  That number is a word,
unless the fragment names the register with the greatest index of all (`Registers.NamesLast`); then,
and only then, counting ends with an overflow (`Registers.usage_eq_error_iff`).
-/

namespace KernelIsa.Registers

variable {fragment : Text} {operand : Operand} {overflow : Overflow}

/-- A fold that fails at bad items only, in one way, fails exactly if there is a bad item. -/
theorem foldlM_eq_error_iff {α β ε : Type} {f : β → α → Except ε β} {bad : α → Prop} {error : ε}
    (hf : ∀ b a error', f b a = .error error' ↔ error' = error ∧ bad a) (items : List α) (b : β)
    (error' : ε) : items.foldlM f b = .error error' ↔ error' = error ∧ ∃ a ∈ items, bad a := by
  induction items generalizing b with
  | nil => exact iff_of_false nofun fun h => (List.not_mem_nil h.2.choose_spec.1).elim
  | cons a items ih =>
    rw [List.foldlM_cons]
    simp only [List.mem_cons, exists_eq_or_imp]
    cases hstep : f b a with
    | error first =>
      obtain ⟨rfl, hbad⟩ := (hf b a first).mp hstep
      exact ⟨fun h => ⟨(Except.error.inj h).symm, .inl hbad⟩, fun h => congrArg _ h.1.symm⟩
    | ok next =>
      have hgood : ¬ bad a := fun hbad => by
        rw [(hf b a error).mpr ⟨rfl, hbad⟩] at hstep
        cases hstep
      rw [or_iff_right hgood]
      exact ih next

/-- A fragment names the register with the greatest index. -/
def NamesLast (fragment : Text) : Prop :=
  ∃ line ∈ Text.lines (Fragment.body fragment), ∃ tokens ∈ tokens? line,
    ∃ operand ∈ tokens.filterMap operand?, operand.index + 1 = Word.limit

theorem index?_lt {t : Text} {n : Nat} (h : index? t = some n) : n < Word.limit := by
  rw [index?] at h
  split at h
  · obtain ⟨bounds, -, hread⟩ := Option.bind_eq_some_iff.mp h
    exact Word.read?_lt hread
  · split at h
    · cases h
    · exact Word.read?_lt h

/-- The index of a register is a word. -/
theorem operand?_lt {token : Text} (h : operand? token = some operand) :
    operand.index < Word.limit := by
  rw [operand?] at h
  split at h
  · cases h
  · obtain ⟨kind, -, h⟩ := Option.bind_eq_some_iff.mp h
    obtain ⟨n, hn, rfl⟩ := Option.map_eq_some_iff.mp h
    exact index?_lt hn

namespace Usage

theorem note_eq_error_iff (usage : Usage) (operand : Operand) (overflow : Overflow) :
    usage.note operand = .error overflow ↔ overflow = .addition ∧ Word.limit ≤ operand.index + 1 := by
  rw [note, Word.add]
  split
  · next hlt =>
    refine iff_of_false (fun h => ?_) fun h => absurd hlt (Nat.not_lt.mpr h.2)
    cases hkind : operand.kind <;> rw [hkind] at h <;> cases h
  · next hle =>
    refine ⟨fun h => ⟨(Except.error.inj h).symm, Nat.not_lt.mp hle⟩, ?_⟩
    rintro ⟨rfl, -⟩
    rfl

theorem noteLine_eq_error_iff (usage : Usage) (line : Text) (overflow : Overflow) :
    usage.noteLine line = .error overflow ↔ overflow = .addition ∧ ∃ tokens ∈ tokens? line,
      ∃ operand ∈ tokens.filterMap operand?, Word.limit ≤ operand.index + 1 := by
  rw [noteLine]
  cases tokens? line with
  | none => exact iff_of_false nofun fun h => nomatch h.2
  | some tokens =>
    refine (foldlM_eq_error_iff note_eq_error_iff _ _ _).trans (and_congr_right' ?_)
    exact ⟨fun h => ⟨tokens, rfl, h⟩, fun ⟨_, htokens, h⟩ => Option.some.inj htokens ▸ h⟩

end Usage

/-- **Counting registers overflows exactly if the register with the greatest index is named.** -/
theorem usage_eq_error_iff : usage fragment = .error overflow ↔
    overflow = .addition ∧ NamesLast fragment := by
  refine (foldlM_eq_error_iff Usage.noteLine_eq_error_iff _ _ _).trans (and_congr_right' ?_)
  constructor
  · rintro ⟨line, hline, tokens, htokens, operand, hoperand, hle⟩
    obtain ⟨token, -, htoken⟩ := List.mem_filterMap.mp hoperand
    exact ⟨line, hline, tokens, htokens, operand, hoperand,
      Nat.le_antisymm (operand?_lt htoken) hle⟩
  · rintro ⟨line, hline, tokens, htokens, operand, hoperand, heq⟩
    exact ⟨line, hline, tokens, htokens, operand, hoperand, Nat.le_of_eq heq.symm⟩

end KernelIsa.Registers
