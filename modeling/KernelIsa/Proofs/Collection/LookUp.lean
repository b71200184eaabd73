import KernelIsa.Collection.Keyed
import Mathlib.Data.List.Nodup
import Mathlib.Data.List.Sort

/-!
# Proofs/Collection/LookUp — what is looked up in a table

The look-ups determine a table (`ext`).  In `Keyed.ofList` of two entries with one key the later one
stands (`get?_ofList`); where the keys are distinct the order of the list does not matter
(`ofList_eq_of_perm`).  What is looked up in a union is what the second table has, or else what the
first one has (`get?_union`); a change of all values changes the values that are looked up
(`get?_mapValues`).
-/

namespace KernelIsa.Keyed

open Std

section LastEntry

variable {κ α β : Type} [DecidableEq κ] {es es' : List (κ × α)} {k : κ} {v : α}

/-! ## The last entry of a key -/

/-- The value of the last entry with a key. -/
def last? (k : κ) (es : List (κ × α)) : Option α :=
  (es.reverse.find? fun e => e.1 = k).map Prod.snd

theorem last?_cons (k : κ) (e : κ × α) (es : List (κ × α)) :
    last? k (e :: es) = (last? k es).or (if e.1 = k then some e.2 else none) := by
  rw [last?, last?, List.reverse_cons, List.find?_append, Option.map_or]
  by_cases h : e.1 = k
  · rw [if_pos h, List.find?_cons_of_pos (by simpa using h)]
    rfl
  · rw [if_neg h, List.find?_cons_of_neg (by simpa using h)]
    rfl

theorem last?_map (f : κ → α → β) (k : κ) (es : List (κ × α)) :
    last? k (es.map fun e => (e.1, f e.1 e.2)) = (last? k es).map (f k) := by
  induction es with
  | nil => rfl
  | cons e es ih =>
    rw [List.map_cons, last?_cons, last?_cons, ih, Option.map_or]
    by_cases h : e.1 = k
    · rw [if_pos h, if_pos h, h]
      rfl
    · rw [if_neg h, if_neg h]
      rfl

theorem last?_eq_none_iff : last? k es = none ↔ ∀ e ∈ es, e.1 ≠ k := by
  simp [last?]

theorem last?_isSome_iff : (last? k es).isSome ↔ k ∈ es.map Prod.fst := by
  rw [Option.isSome_iff_ne_none, ne_eq, last?_eq_none_iff, List.mem_map]
  push Not
  rfl

/-- The other entries do not matter. -/
theorem last?_filter (k : κ) (es : List (κ × α)) :
    last? k (es.filter fun e => e.1 = k) = last? k es := by
  induction es with
  | nil => rfl
  | cons e es ih =>
    by_cases h : e.1 = k
    · rw [List.filter_cons_of_pos (by simpa using h), last?_cons, last?_cons, ih]
    · rw [List.filter_cons_of_neg (by simpa using h), last?_cons, if_neg h, Option.or_none, ih]

theorem mem_of_last? (h : last? k es = some v) : (k, v) ∈ es := by
  obtain ⟨e, he, rfl⟩ := Option.map_eq_some_iff.mp h
  have hk : e.1 = k := by simpa using List.find?_some he
  exact hk ▸ List.mem_reverse.mp (List.mem_of_find?_eq_some he)

/-- Among distinct keys the only entry of a key is the last one. -/
theorem last?_eq_some_iff (h : (es.map Prod.fst).Nodup) :
    last? k es = some v ↔ (k, v) ∈ es := by
  refine ⟨mem_of_last?, fun hmem => ?_⟩
  cases hlast : last? k es with
  | none => exact absurd rfl (last?_eq_none_iff.mp hlast _ hmem)
  | some w =>
    have heq := List.inj_on_of_nodup_map h (mem_of_last? hlast) hmem rfl
    rw [(Prod.mk.inj heq).2]

/-! ## The table -/

variable [Ord κ] [TransOrd κ] [LawfulEqOrd κ]

omit [DecidableEq κ] in
/-- Two tables with the same look-ups are the same table. -/
theorem ext {s t : Keyed κ α} (h : ∀ k, s.get? k = t.get? k) : s = t := by
  have : Irrefl fun a b : κ × α => compare a.1 b.1 = .lt := ⟨fun a => by simp⟩
  have : Antisymm fun a b : κ × α => compare a.1 b.1 = .lt :=
    ⟨fun a b hab hba => absurd (OrientedCmp.gt_of_lt hab) (by simp [hba])⟩
  refine (mk.injEq ..).mpr (s.ordered.eq_of_mem_iff t.ordered fun e => ?_)
  rw [mem_entries_iff, mem_entries_iff, h]

theorem get?_foldl_insert (k : κ) (t : Keyed κ α) :
    (es.foldl (fun t e => t.insert e.1 e.2) t).get? k = (last? k es).or (t.get? k) := by
  induction es generalizing t with
  | nil => rfl
  | cons e es ih =>
    rw [List.foldl_cons, ih, get?_insert, last?_cons, Option.or_assoc]
    by_cases h : e.1 = k
    · rw [if_pos h, if_pos h]
      rfl
    · rw [if_neg h, if_neg h]
      rfl

/-- **The last entry of a key stands.** -/
theorem get?_ofList (es : List (κ × α)) (k : κ) : (ofList es).get? k = last? k es := by
  rw [ofList, get?_foldl_insert, get?_empty, Option.or_none]

/-- **Entries with distinct keys may stand in any order.** -/
theorem ofList_eq_of_perm (h : (es.map Prod.fst).Nodup) (hperm : es.Perm es') :
    ofList es = ofList es' := by
  refine ext fun k => ?_
  have h' : (es'.map Prod.fst).Nodup := (hperm.map Prod.fst).nodup_iff.mp h
  rw [get?_ofList, get?_ofList]
  refine Option.ext fun v => ?_
  rw [last?_eq_some_iff h, last?_eq_some_iff h', hperm.mem_iff]

end LastEntry

/-! ## Tables put into one another -/

section Union

variable {κ α β : Type} [Ord κ] [LawfulEqOrd κ] {k : κ} {v : α}

theorem nodup_keys (t : Keyed κ α) : (t.entries.map Prod.fst).Nodup := by
  rw [List.nodup_iff_pairwise_ne, List.pairwise_map]
  refine t.ordered.imp fun h hk => ?_
  rw [hk] at h
  simp at h

/-- Entries of which one passes a test. -/
theorem entries_filter_eq_singleton {t : Keyed κ α} {p : κ × α → Bool}
    (h : ∀ e, e ∈ t.entries ∧ p e ↔ e = (k, v)) : t.entries.filter p = [(k, v)] := by
  have hnodup : (t.entries.filter p).Nodup := (List.Nodup.of_map _ t.nodup_keys).filter p
  have hperm : (t.entries.filter p).Perm [(k, v)] :=
    (List.perm_ext_iff_of_nodup hnodup (List.nodup_singleton _)).mpr fun e => by
      rw [List.mem_filter, h, List.mem_singleton]
  exact List.perm_singleton.mp hperm

theorem get?_filter (p : κ → α → Bool) (t : Keyed κ α) (k : κ) :
    (t.filter p).get? k = (t.get? k).filter (p k) := by
  refine Option.ext fun v => ?_
  rw [← mem_entries_iff, filter, List.mem_filter, mem_entries_iff, Option.filter_eq_some_iff]

variable [DecidableEq κ]

theorem last?_entries (t : Keyed κ α) (k : κ) : last? k t.entries = t.get? k :=
  Option.ext fun v => by rw [last?_eq_some_iff t.nodup_keys, mem_entries_iff]

theorem get?_mapValues (f : κ → α → β) (t : Keyed κ α) (k : κ) :
    (t.mapValues f).get? k = (t.get? k).map (f k) := by
  rw [← last?_entries, ← last?_entries, mapValues, last?_map]

/-- **The second table of a union comes first.** -/
theorem get?_union [TransOrd κ] (s t : Keyed κ α) (k : κ) :
    (s.union t).get? k = (t.get? k).or (s.get? k) := by
  rw [union, get?_foldl_insert, last?_entries]

end Union

end KernelIsa.Keyed
