/-!
# Collection/Keyed — tables sorted by key

A `Keyed κ α` holds entries in strictly increasing key order, so each key at most once.  `insert`
puts an entry in its place and replaces an entry of the same key: `get?_insert` is its whole
effect.
-/

namespace KernelIsa

open Std

/-- A table of entries in strictly increasing order of their keys. -/
structure Keyed (κ α : Type) [Ord κ] where
  entries : List (κ × α)
  ordered : entries.Pairwise fun a b => compare a.1 b.1 = .lt

namespace Keyed

variable {κ α β : Type} [Ord κ]

/-- The table without entries. -/
def empty : Keyed κ α := ⟨[], .nil⟩

instance : EmptyCollection (Keyed κ α) := ⟨empty⟩

instance : Inhabited (Keyed κ α) := ⟨empty⟩

/-- The keys in order. -/
def keys (t : Keyed κ α) : List κ := t.entries.map Prod.fst

/-- The values in the order of their keys. -/
def values (t : Keyed κ α) : List α := t.entries.map Prod.snd

/-- The number of entries. -/
def size (t : Keyed κ α) : Nat := t.entries.length

/-- The value at a key. -/
def get? (t : Keyed κ α) (k : κ) : Option α :=
  (t.entries.find? fun e => compare e.1 k == .eq).map Prod.snd

/-! ## Insertion -/

/-- Puts an entry into a sorted list, in the place of an entry with the same key if there is one. -/
def insertEntry (k : κ) (v : α) : List (κ × α) → List (κ × α)
  | [] => [(k, v)]
  | e :: rest => match compare k e.1 with
    | .lt => (k, v) :: e :: rest
    | .eq => (k, v) :: rest
    | .gt => e :: insertEntry k v rest

theorem fst_mem_insertEntry {k : κ} {v : α} {es : List (κ × α)} {e : κ × α}
    (h : e ∈ insertEntry k v es) : e = (k, v) ∨ e ∈ es := by
  induction es with
  | nil => simpa [insertEntry] using h
  | cons d es ih =>
    simp only [insertEntry] at h
    split at h
    · simpa using h
    · rcases List.mem_cons.mp h with h | h
      · exact .inl h
      · exact .inr (List.mem_cons_of_mem _ h)
    · rcases List.mem_cons.mp h with h | h
      · exact .inr (h ▸ List.mem_cons_self)
      · exact (ih h).imp_right (List.mem_cons_of_mem _)

theorem pairwise_insertEntry [TransOrd κ] (k : κ) (v : α) {es : List (κ × α)}
    (h : es.Pairwise fun a b => compare a.1 b.1 = .lt) :
    (insertEntry k v es).Pairwise fun a b => compare a.1 b.1 = .lt := by
  induction es with
  | nil => simp [insertEntry]
  | cons d es ih =>
    obtain ⟨hd, hes⟩ := List.pairwise_cons.mp h
    simp only [insertEntry]
    split
    · next hk =>
      refine List.pairwise_cons.mpr ⟨fun e he => ?_, h⟩
      rcases List.mem_cons.mp he with rfl | he
      · exact hk
      · exact TransCmp.lt_trans hk (hd e he)
    · next hk =>
      exact List.pairwise_cons.mpr ⟨fun e he => TransCmp.lt_of_eq_of_lt hk (hd e he), hes⟩
    · next hk =>
      refine List.pairwise_cons.mpr ⟨fun e he => ?_, ih hes⟩
      rcases fst_mem_insertEntry he with rfl | he
      · exact OrientedCmp.lt_of_gt hk
      · exact hd e he

/-- The table with a value at a key, whatever stood there before. -/
def insert [TransOrd κ] (k : κ) (v : α) (t : Keyed κ α) : Keyed κ α :=
  ⟨insertEntry k v t.entries, pairwise_insertEntry k v t.ordered⟩

/-- The table of a list of entries; of two entries with one key the later one stands. -/
def ofList [TransOrd κ] (es : List (κ × α)) : Keyed κ α :=
  es.foldl (fun t e => t.insert e.1 e.2) empty

/-- The first table with the entries of the second one put into it. -/
def union [TransOrd κ] (s t : Keyed κ α) : Keyed κ α :=
  t.entries.foldl (fun t e => t.insert e.1 e.2) s

/-- The table with every value replaced by a function of its key and itself. -/
def mapValues (f : κ → α → β) (t : Keyed κ α) : Keyed κ β where
  entries := t.entries.map fun e => (e.1, f e.1 e.2)
  ordered := List.pairwise_map.mpr t.ordered

/-- The table without the entries that fail a test. -/
def filter (p : κ → α → Bool) (t : Keyed κ α) : Keyed κ α where
  entries := t.entries.filter fun e => p e.1 e.2
  ordered := t.ordered.filter _

/-! ## Look-up -/

@[simp] theorem get?_empty (k : κ) : (empty : Keyed κ α).get? k = none := rfl

/-- After an insertion the key has the new value, and every other key what it had. -/
theorem get?_insert [TransOrd κ] [LawfulEqOrd κ] [DecidableEq κ] (k : κ) (v : α) (t : Keyed κ α)
    (k' : κ) :
    (t.insert k v).get? k' = if k = k' then some v else t.get? k' := by
  obtain ⟨es, hes⟩ := t
  simp only [get?, insert]
  clear hes
  induction es with
  | nil =>
    by_cases h : k = k'
    · simp [insertEntry, h]
    · simp [insertEntry, h]
  | cons e es ih =>
    simp only [insertEntry]
    by_cases h : k = k'
    · subst h
      split
      · simp
      · simp
      · next hk =>
        have hne : e.1 ≠ k := fun he => by simp [he] at hk
        simp only [List.find?_cons]
        rw [show (compare e.1 k == .eq) = false by simpa using hne]
        simpa using ih
    · simp only [h, if_false] at ih ⊢
      split
      · simp [List.find?_cons, h]
      · next hk =>
        have he : k = e.1 := by simpa using hk
        have hne : ¬ e.1 = k' := he ▸ h
        simp [h, hne]
      · simp only [List.find?_cons]
        split <;> simp_all

theorem get?_of_mem [LawfulEqOrd κ] {t : Keyed κ α} {e : κ × α} (h : e ∈ t.entries) :
    t.get? e.1 = some e.2 := by
  obtain ⟨es, hes⟩ := t
  simp only [get?]
  induction es with
  | nil => simp at h
  | cons d es ih =>
    obtain ⟨hd, hes'⟩ := List.pairwise_cons.mp hes
    rcases List.mem_cons.mp h with rfl | h
    · simp
    · have hlt := hd e h
      have hne : ¬ d.1 = e.1 := fun he => by simp [he] at hlt
      rw [List.find?_cons]
      rw [show (compare d.1 e.1 == .eq) = false by simpa using hne]
      exact ih hes' h

theorem mem_of_get? [LawfulEqOrd κ] {t : Keyed κ α} {k : κ} {v : α} (h : t.get? k = some v) :
    (k, v) ∈ t.entries := by
  simp only [get?, Option.map_eq_some_iff] at h
  obtain ⟨e, he, rfl⟩ := h
  have hk : e.1 = k := by simpa using List.find?_some he
  exact hk ▸ List.mem_of_find?_eq_some he

/-- An entry stands in the table exactly if its key is looked up to its value. -/
theorem mem_entries_iff [LawfulEqOrd κ] {t : Keyed κ α} {k : κ} {v : α} :
    (k, v) ∈ t.entries ↔ t.get? k = some v :=
  ⟨fun h => get?_of_mem h, mem_of_get?⟩

end Keyed

end KernelIsa
