import KernelIsa.Proofs.Listing.RegisterLimit
import KernelIsa.Proofs.Listing.ReportedChanges

/-!
# Proofs/Listing/AddressLimit — where measuring code leaves 64 bits

A reduction measures how far each instruction reaches from the first one.  It overflows exactly if
some lines reach 2⁶⁴ bytes while those in front of the last of them neither attain the code size nor
hold an address that cannot be read (`Exceeds`); one inversion for each kind of line gives
`coverFrom_eq_error_iff` by induction.  As an address and a width are small, that takes code that
starts in the first eight bytes (`Exceeds.firstAddress_lt`).  Together with the limit on register
indices this tells on which fragments the analysis ends (`Fragment.analyzed_iff`).
-/

namespace KernelIsa

namespace Line

variable {line : Text} {address width : Nat}

/-- An instruction lies in 64 bits and is four or eight bytes wide. -/
theorem location_bounds (h : location line = .span address width) :
    address < Word.limit ∧ width ≤ 8 := by
  rw [location] at h
  split at h
  · cases h
  · split at h
    · cases h
    · split at h
      · cases h
      · next hread =>
        obtain ⟨rfl, rfl⟩ := Location.span.inj h
        refine ⟨Word.read?_lt hread, ?_⟩
        split <;> decide

end Line

namespace Reduction

open Line

variable {size : Nat} {origin : Option Nat} {fragment line : Text} {body rest front : List Text}
  {overflow : Overflow}

theorem place_bounds {address width : Nat} (h : place line = .span address width) :
    address < Word.limit ∧ width ≤ 8 := by
  rw [place] at h
  split at h
  · cases h
  · exact location_bounds h

/-! ## Code that exceeds the words -/

/-- Some lines reach 2⁶⁴ bytes, and those in front of the last of them neither attain the size nor
hold an address that cannot be read. -/
def Exceeds (size : Nat) (origin : Option Nat) (body : List Text) : Prop :=
  ∃ front line rest, body = front ++ line :: rest ∧ Attains Word.limit origin (front ++ [line]) ∧
    ¬ Attains size origin front ∧ ∀ l ∈ front, place l ≠ .unreadable

theorem not_exceeds_nil : ¬ Exceeds size origin [] := by
  rintro ⟨front, line, rest, hbody, -⟩
  simp at hbody

theorem exceeds_cons_iff : Exceeds size origin (line :: rest) ↔
    Attains Word.limit origin [line] ∨ (place line ≠ .unreadable ∧
      ∃ front last behind, rest = front ++ last :: behind ∧
        Attains Word.limit origin (line :: (front ++ [last])) ∧
        ¬ Attains size origin (line :: front) ∧ ∀ l ∈ front, place l ≠ .unreadable) := by
  constructor
  · rintro ⟨front, last, behind, hbody, hlimit, hsize, hread⟩
    cases front with
    | nil =>
      obtain ⟨rfl, -⟩ := List.cons.inj hbody
      exact .inl hlimit
    | cons first front =>
      obtain ⟨rfl, hrest⟩ := List.cons.inj hbody
      obtain ⟨hline, hfront⟩ := List.forall_mem_cons.mp hread
      exact .inr ⟨hline, front, last, behind, hrest, hlimit, hsize, hfront⟩
  · rintro (hlimit | ⟨hline, front, last, behind, rfl, hlimit, hsize, hread⟩)
    · exact ⟨[], line, rest, rfl, hlimit, not_attains_nil, List.forall_mem_nil _⟩
    · exact ⟨line :: front, last, behind, rfl, hlimit, hsize,
        List.forall_mem_cons.mpr ⟨hline, hread⟩⟩

theorem exceeds_cons_of_absent (h : place line = .absent) :
    Exceeds size origin (line :: rest) ↔ Exceeds size origin rest := by
  have hattains (n : Nat) (front : List Text) :
      Attains n origin (line :: front) ↔ Attains n origin front :=
    attains_cons_of_no_span (by simp [h])
  rw [exceeds_cons_iff, h]
  simp [Exceeds, hattains, not_attains_nil]

theorem not_exceeds_of_unreadable (h : place line = .unreadable) :
    ¬ Exceeds size origin (line :: rest) := by
  have hattains : Attains Word.limit origin [line] ↔ Attains Word.limit origin [] :=
    attains_cons_of_no_span (by simp [h])
  rw [exceeds_cons_iff, hattains, h]
  simp [not_attains_nil]

theorem exceeds_cons_of_span {address width : Nat} (h : place line = .span address width) :
    Exceeds size origin (line :: rest) ↔ Word.limit ≤ address - origin.getD address + width ∨
      (address - origin.getD address + width < size ∧
        Exceeds size (some (origin.getD address)) rest) := by
  rw [exceeds_cons_iff, h]
  simp only [attains_cons_of_span h, not_attains_nil, or_false, not_or, Nat.not_le]
  constructor
  · rintro (hlimit | ⟨-, front, last, behind, hrest, hlimit, ⟨hsize, hfront⟩, hread⟩)
    · exact .inl hlimit
    · exact hlimit.imp_right fun hlimit =>
        ⟨hsize, front, last, behind, hrest, hlimit, hfront, hread⟩
  · rintro (hlimit | ⟨hsize, front, last, behind, hrest, hlimit, hfront, hread⟩)
    · exact .inl hlimit
    · exact .inr ⟨nofun, front, last, behind, hrest, .inr hlimit, ⟨hsize, hfront⟩, hread⟩

theorem consKept_eq_error_iff {e : Except Overflow (Option (List Text))} :
    consKept line e = .error overflow ↔ e = .error overflow := by
  cases e <;> simp [consKept, Except.map]

theorem add_eq_error_iff {a b : Nat} : Word.add a b = .error .addition ↔ Word.limit ≤ a + b := by
  rw [Word.add]
  split
  · next hlt => exact iff_of_false (by simp) (Nat.not_le.mpr hlt)
  · next hle => exact iff_of_true rfl (Nat.not_lt.mp hle)

/-- **Measuring overflows exactly on the lines that exceed the words.** -/
theorem coverFrom_eq_error_iff :
    coverFrom size origin body = .error .addition ↔ Exceeds size origin body := by
  induction body generalizing origin with
  | nil => exact iff_of_false nofun not_exceeds_nil
  | cons line rest ih =>
    cases hplace : place line with
    | absent =>
      rw [coverFrom_of_absent hplace, consKept_eq_error_iff, ih, exceeds_cons_of_absent hplace]
    | unreadable =>
      rw [coverFrom_of_unreadable hplace]
      exact iff_of_false nofun (not_exceeds_of_unreadable hplace)
    | span address width =>
      rw [coverFrom_of_span hplace, exceeds_cons_of_span hplace]
      cases hadd : Word.add (address - origin.getD address) width with
      | error e =>
        cases e
        exact iff_of_true rfl (.inl (add_eq_error_iff.mp hadd))
      | ok reached =>
        obtain rfl := Word.eq_add_of_add hadd
        have hword : ¬ Word.limit ≤ address - origin.getD address + width := fun hlimit => by
          rw [add_eq_error_iff.mpr hlimit] at hadd
          cases hadd
        rw [or_iff_right hword]
        dsimp only [Except.bind]
        split
        · next hsize => exact iff_of_false nofun fun h => absurd hsize (Nat.not_le.mpr h.1)
        · next hsize =>
          rw [consKept_eq_error_iff, ih]
          exact (and_iff_right (Nat.not_le.mp hsize)).symm

/-- A reduction overflows where measuring the body does. -/
theorem reduce_eq_error_iff :
    reduce fragment size = .error .addition ↔ Exceeds size none (bodyOf fragment) := by
  rw [← coverFrom_eq_error_iff]
  refine ⟨fun h => ?_, reduce_of_coverFrom_error⟩
  cases hcover : coverFrom size none (bodyOf fragment) with
  | error e =>
    cases e
    rfl
  | ok covered =>
    cases covered with
    | none =>
      obtain ⟨line, hline⟩ := reduce_of_coverFrom_none hcover
      cases h.symm.trans hline
    | some kept => cases h.symm.trans (reduce_of_covers (covers_of_coverFrom hcover))

theorem firstAddress?_append (h : firstAddress? front = some n) (rest : List Text) :
    firstAddress? (front ++ rest) = some n := by
  rw [firstAddress?, List.findSome?_append, ← firstAddress?, h]
  rfl

/-- **Only code that starts in the first eight bytes exceeds the words.** -/
theorem Exceeds.firstAddress_lt (h : Exceeds size none body) :
    ∃ start, firstAddress? body = some start ∧ start < 8 := by
  obtain ⟨front, line, rest, rfl, ⟨start, hstart, _, -, address, width, hplace, hlimit⟩, -⟩ := h
  obtain ⟨haddress, hwidth⟩ := place_bounds hplace
  have hlarge : 8 < Word.limit := by decide
  refine ⟨start, ?_, by omega⟩
  have hbody : front ++ line :: rest = front ++ [line] ++ rest := by simp
  rw [hbody]
  exact firstAddress?_append hstart rest

end Reduction

/-- **A fragment is reduced, unless its code exceeds the words before the size is attained, and its
registers are counted, unless it names the one with the greatest index.** -/
theorem Fragment.analyzed_iff (fragment : Text) (size : Nat) :
    ((∃ o, Reduction.reduce fragment size = .ok o) ↔
      ¬ Reduction.Exceeds size none (Reduction.bodyOf fragment)) ∧
    ((∃ usage, Registers.usage fragment = .ok usage) ↔ ¬ Registers.NamesLast fragment) := by
  constructor
  · rw [← Reduction.reduce_eq_error_iff]
    cases Reduction.reduce fragment size with
    | ok o => simp
    | error overflow => cases overflow; simp
  · have herror : Registers.usage fragment = .error .addition ↔ Registers.NamesLast fragment :=
      Registers.usage_eq_error_iff.trans (and_iff_right rfl)
    rw [← herror]
    cases Registers.usage fragment with
    | ok usage => simp
    | error overflow => cases overflow; simp

/-- Instructions at both ends of the 64 bits, and the register with the greatest index. -/
def Fragment.extremeWords : Text := Fragment.withHeader "k".toList
  "\ts_nop // 0: BF\n\ts_mov s18446744073709551615 // FFFFFFFFFFFFFFFF: BF\n".toList

/-- **The fragment with extreme words is neither reduced nor are its registers counted.** -/
theorem Fragment.not_analyzed_extremeWords :
    (¬ ∃ o, Reduction.reduce Fragment.extremeWords 8 = .ok o) ∧
    ¬ ∃ usage, Registers.usage Fragment.extremeWords = .ok usage := by
  have hreduce : Reduction.reduce Fragment.extremeWords 8 = .error .addition := by decide +kernel
  have husage : Registers.usage Fragment.extremeWords = .error .addition := by decide +kernel
  rw [hreduce, husage]
  exact ⟨nofun, nofun⟩

end KernelIsa
