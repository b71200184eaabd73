import KernelIsa.Listing.Reduction

/-!
# Proofs/Listing/Coverage — the lines that a code size covers

`coverFrom` is `extentFrom` read as the list of the kept lines (`map_cover_extentFrom`), and
`Covers` says which lines these are.  Coverage sees no more of a line than its `place`, so a
rewriting that keeps places commutes with it (`coverFrom_filterMap`).  Two sizes agree on each
other's lines: the smaller one covers a prefix of what the larger one does, and finds it there
(`Covers.of_le`); the larger one covers all that the smaller one left (`Covers.covered`).
-/

namespace KernelIsa

theorem bind_eq_ok_iff {ε α β : Type} {e : Except ε α} {f : α → Except ε β} {b : β} :
    e.bind f = .ok b ↔ ∃ a, e = .ok a ∧ f a = .ok b := by
  cases e with
  | error e =>
    refine ⟨(nomatch ·), ?_⟩
    rintro ⟨a, ha, -⟩
    cases ha
  | ok a =>
    refine ⟨fun h => ⟨a, rfl, h⟩, ?_⟩
    rintro ⟨a', ha, h⟩
    rwa [Except.ok.inj ha]

namespace Reduction

open Line

variable {size n m : Nat} {origin : Option Nat} {line : Text} {body kept : List Text}

/-! ## Places -/

/-- What a line of a body says about addresses; a comment says nothing. -/
def place (line : Text) : Line.Location := if isComment line then .absent else location line

theorem place_congr {line' : Text} (hc : isComment line' = isComment line)
    (hl : location line' = location line) : place line' = place line := by
  rw [place, place, hc, hl]

/-! ## Coverage -/

/-- The kept lines of a body in front of which `line` stands. -/
def consKept (line : Text) : Except Overflow (Option (List Text)) →
    Except Overflow (Option (List Text)) :=
  Except.map (Option.map (line :: ·))

/-- The lines up to the first one that reaches `size` bytes, or all; `none` if the address on one of
them cannot be read. -/
def coverFrom (size : Nat) (origin : Option Nat) : List Text → Except Overflow (Option (List Text))
  | [] => .ok (some [])
  | line :: rest => match place line with
    | .absent => consKept line (coverFrom size origin rest)
    | .unreadable => .ok none
    | .span address width => match Word.add (address - origin.getD address) width with
      | .error e => .error e
      | .ok reached =>
        if size ≤ reached then .ok (some [line])
        else consKept line (coverFrom size (some (origin.getD address)) rest)

theorem coverFrom_of_absent {rest : List Text} (h : place line = .absent) :
    coverFrom size origin (line :: rest) = consKept line (coverFrom size origin rest) := by
  rw [coverFrom, h]

theorem coverFrom_of_unreadable {rest : List Text} (h : place line = .unreadable) :
    coverFrom size origin (line :: rest) = .ok none := by
  rw [coverFrom, h]

theorem coverFrom_of_span {rest : List Text} {address width : Nat}
    (h : place line = .span address width) : coverFrom size origin (line :: rest) =
      (Word.add (address - origin.getD address) width).bind fun reached =>
        if size ≤ reached then .ok (some [line])
        else consKept line (coverFrom size (some (origin.getD address)) rest) := by
  rw [coverFrom, h]
  dsimp only
  cases Word.add (address - origin.getD address) width <;> rfl

/-- The lines of a body that an extent keeps. -/
def Extent.cover (body : List Text) : Extent → Option (List Text)
  | .through count => some (body.take count)
  | .whole => some body
  | .unreadable _ => none

theorem Extent.cover_succ (line : Text) (body : List Text) (extent : Extent) :
    extent.succ.cover (line :: body) = (extent.cover body).map (line :: ·) := by
  cases extent <;> rfl

theorem map_cover_succ (line : Text) (rest : List Text) (e : Except Overflow Extent) :
    (e.map Extent.succ).map (Extent.cover (line :: rest))
      = consKept line (e.map (Extent.cover rest)) := by
  cases e with
  | error e => rfl
  | ok extent => exact congrArg Except.ok (extent.cover_succ line rest)

/-- **The extent is the coverage.** -/
theorem map_cover_extentFrom (size : Nat) (origin : Option Nat) (body : List Text) :
    (extentFrom size origin body).map (Extent.cover body) = coverFrom size origin body := by
  induction body generalizing origin with
  | nil => rfl
  | cons line rest ih =>
    rw [extentFrom, coverFrom, place]
    split
    · rw [map_cover_succ, ih]
    · cases location line with
      | absent => dsimp only; rw [map_cover_succ, ih]
      | unreadable => rfl
      | span address width =>
        dsimp only
        cases Word.add (address - origin.getD address) width with
        | error e => rfl
        | ok reached =>
          by_cases hsize : size ≤ reached
          · simp only [bind, Except.bind, if_pos hsize]
            rfl
          · simp only [bind, Except.bind, if_neg hsize]
            rw [map_cover_succ, ih]

theorem consKept_eq_some_iff {e : Except Overflow (Option (List Text))} :
    consKept line e = .ok (some kept) ↔ ∃ rest, e = .ok (some rest) ∧ kept = line :: rest := by
  rcases e with e | _ | rest <;> simp [consKept, Except.map, eq_comm]

theorem consKept_eq_none_iff {e : Except Overflow (Option (List Text))} :
    consKept line e = .ok none ↔ e = .ok none := by
  rcases e with e | _ | rest <;> simp [consKept, Except.map]

/-- `kept` is what `size` bytes cover of a body: a line without a place is kept, an instruction is
kept and is the last one if it reaches the size. -/
inductive Covers (size : Nat) : Option Nat → List Text → List Text → Prop
  | nil {origin : Option Nat} : Covers size origin [] []
  | absent {origin : Option Nat} {line : Text} {rest kept : List Text}
      (hplace : place line = .absent) (hrest : Covers size origin rest kept) :
      Covers size origin (line :: rest) (line :: kept)
  | last {origin : Option Nat} {line : Text} {rest : List Text} {address width reached : Nat}
      (hplace : place line = .span address width)
      (hadd : Word.add (address - origin.getD address) width = .ok reached)
      (hreached : size ≤ reached) : Covers size origin (line :: rest) [line]
  | more {origin : Option Nat} {line : Text} {rest kept : List Text} {address width reached : Nat}
      (hplace : place line = .span address width)
      (hadd : Word.add (address - origin.getD address) width = .ok reached)
      (hreached : reached < size) (hrest : Covers size (some (origin.getD address)) rest kept) :
      Covers size origin (line :: rest) (line :: kept)

theorem Covers.coverFrom_eq (h : Covers size origin body kept) :
    coverFrom size origin body = .ok (some kept) := by
  induction h with
  | nil => rfl
  | absent hplace _ ih =>
    rw [coverFrom_of_absent hplace, ih]
    rfl
  | last hplace hadd hreached =>
    rw [coverFrom_of_span hplace, hadd]
    exact if_pos hreached
  | more hplace hadd hreached _ ih =>
    rw [coverFrom_of_span hplace, hadd, ih]
    exact if_neg (Nat.not_le.mpr hreached)

theorem covers_of_coverFrom (h : coverFrom size origin body = .ok (some kept)) :
    Covers size origin body kept := by
  induction body generalizing origin kept with
  | nil =>
    obtain rfl : [] = kept := by simpa [coverFrom] using h
    exact .nil
  | cons line rest ih =>
    cases hplace : place line with
    | absent =>
      rw [coverFrom_of_absent hplace] at h
      obtain ⟨k, hk, rfl⟩ := consKept_eq_some_iff.mp h
      exact .absent hplace (ih hk)
    | unreadable =>
      rw [coverFrom_of_unreadable hplace] at h
      cases h
    | span address width =>
      rw [coverFrom_of_span hplace] at h
      obtain ⟨reached, hadd, h⟩ := bind_eq_ok_iff.mp h
      split at h
      · next hreached =>
        cases h
        exact .last hplace hadd hreached
      · next hreached =>
        obtain ⟨k, hk, rfl⟩ := consKept_eq_some_iff.mp h
        exact .more hplace hadd (Nat.lt_of_not_le hreached) (ih hk)

/-- **The coverage that `Covers` describes is the one that `coverFrom` computes.** -/
theorem coverFrom_eq_some_iff :
    coverFrom size origin body = .ok (some kept) ↔ Covers size origin body kept :=
  ⟨covers_of_coverFrom, Covers.coverFrom_eq⟩

/-! ## Two sizes -/

theorem Covers.isPrefix (h : Covers size origin body kept) : kept <+: body := by
  induction h with
  | nil => exact List.nil_prefix
  | absent _ _ ih | more _ _ _ _ ih => exact List.cons_prefix_cons.mpr ⟨rfl, ih⟩
  | last => exact List.cons_prefix_cons.mpr ⟨rfl, List.nil_prefix⟩

/-- **A smaller size covers a prefix of what a larger one does, and finds it there.** -/
theorem Covers.of_le (h : n ≤ m) (hm : Covers m origin body kept) :
    ∃ kept', Covers n origin body kept' ∧ Covers n origin kept kept' := by
  induction hm with
  | nil => exact ⟨[], .nil, .nil⟩
  | absent hplace _ ih =>
    obtain ⟨k, hbody, hkept⟩ := ih
    exact ⟨_, .absent hplace hbody, .absent hplace hkept⟩
  | last hplace hadd hreached =>
    have hn := Nat.le_trans h hreached
    exact ⟨_, .last hplace hadd hn, .last hplace hadd hn⟩
  | more hplace hadd hreached _ ih =>
    rcases Nat.lt_or_ge _ n with hn | hn
    · obtain ⟨k, hbody, hkept⟩ := ih
      exact ⟨_, .more hplace hadd hn hbody, .more hplace hadd hn hkept⟩
    · exact ⟨_, .last hplace hadd hn, .last hplace hadd hn⟩

/-- **A larger size covers all that a smaller one left.** -/
theorem Covers.covered (h : n ≤ m) (hn : Covers n origin body kept) :
    Covers m origin kept kept := by
  induction hn with
  | nil => exact .nil
  | absent hplace _ ih => exact .absent hplace ih
  | last hplace hadd _ =>
    rcases Nat.lt_or_ge _ m with hm | hm
    · exact .more hplace hadd hm .nil
    · exact .last hplace hadd hm
  | more hplace hadd hreached _ ih =>
    exact .more hplace hadd (Nat.lt_of_lt_of_le hreached h) ih

/-- An address that stops a smaller size stops a larger one. -/
theorem coverFrom_none_of_le (h : n ≤ m) (hn : coverFrom n origin body = .ok none) :
    coverFrom m origin body = .ok none := by
  induction body generalizing origin with
  | nil => cases hn
  | cons line rest ih =>
    cases hplace : place line with
    | absent =>
      rw [coverFrom_of_absent hplace, consKept_eq_none_iff] at hn ⊢
      exact ih hn
    | unreadable => exact coverFrom_of_unreadable hplace
    | span address width =>
      rw [coverFrom_of_span hplace, bind_eq_ok_iff] at hn ⊢
      obtain ⟨reached, hadd, hn⟩ := hn
      refine ⟨reached, hadd, ?_⟩
      split at hn
      · cases hn
      · next hreached =>
        rw [if_neg fun hm => hreached (Nat.le_trans h hm), consKept_eq_none_iff]
        exact ih (consKept_eq_none_iff.mp hn)

/-! ## Rewritten lines -/

section

variable {f : Text → Option Text}

theorem map_consKept_of_drop (hf : f line = none) (e : Except Overflow (Option (List Text))) :
    (consKept line e).map (Option.map (List.filterMap f)) =
      e.map (Option.map (List.filterMap f)) := by
  rcases e with e | _ | k <;> simp [consKept, Except.map, hf]

theorem map_consKept_of_keep {line' : Text} (hf : f line = some line')
    (e : Except Overflow (Option (List Text))) :
    (consKept line e).map (Option.map (List.filterMap f))
      = consKept line' (e.map (Option.map (List.filterMap f))) := by
  rcases e with e | _ | k <;> simp [consKept, Except.map, hf]

/-- **Coverage commutes with a rewriting that keeps places** and drops only lines without one. -/
theorem coverFrom_filterMap (hdrop : ∀ line ∈ body, f line = none → place line = .absent)
    (hkeep : ∀ line ∈ body, ∀ line', f line = some line' → place line' = place line) :
    coverFrom size origin (body.filterMap f)
      = (coverFrom size origin body).map (Option.map (List.filterMap f)) := by
  induction body generalizing origin with
  | nil => rfl
  | cons line rest ih =>
    obtain ⟨hd, hdrop'⟩ := List.forall_mem_cons.mp hdrop
    obtain ⟨hk, hkeep'⟩ := List.forall_mem_cons.mp hkeep
    cases hf : f line with
    | none =>
      rw [List.filterMap_cons_none hf, coverFrom_of_absent (hd hf), map_consKept_of_drop hf,
        ih hdrop' hkeep']
    | some line' =>
      have hplace := hk line' hf
      rw [List.filterMap_cons_some hf]
      cases hline : place line with
      | absent =>
        rw [coverFrom_of_absent (hplace.trans hline), coverFrom_of_absent hline,
          map_consKept_of_keep hf, ih hdrop' hkeep']
      | unreadable =>
        rw [coverFrom_of_unreadable (hplace.trans hline), coverFrom_of_unreadable hline]
        rfl
      | span address width =>
        rw [coverFrom_of_span (hplace.trans hline), coverFrom_of_span hline]
        cases Word.add (address - origin.getD address) width with
        | error e => rfl
        | ok reached =>
          dsimp only [Except.bind]
          split
          · simp [Except.map, hf]
          · rw [map_consKept_of_keep hf, ih hdrop' hkeep']

theorem Covers.filterMap (h : Covers size origin body kept)
    (hdrop : ∀ line ∈ body, f line = none → place line = .absent)
    (hkeep : ∀ line ∈ body, ∀ line', f line = some line' → place line' = place line) :
    Covers size origin (body.filterMap f) (kept.filterMap f) := by
  rw [← coverFrom_eq_some_iff, coverFrom_filterMap hdrop hkeep, h.coverFrom_eq]
  rfl

end

end Reduction

end KernelIsa
