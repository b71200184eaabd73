/-!
# Collection/Pieces — a list cut at its separators

`pieces p` cuts a list at the elements that satisfy `p` and drops them; there is always at least one
piece (`pieces_ne_nil`), and no piece holds a separator (`pieces_pure`).  `joined` puts pieces
together around one separator; it undoes the cut (`joined_pieces`).
-/

namespace KernelIsa

variable {α : Type}

/-- The pieces of a list between the elements that satisfy `p`. -/
def pieces (p : α → Bool) : List α → List (List α)
  | [] => [[]]
  | a :: as =>
    if p a then [] :: pieces p as
    else match pieces p as with
      | [] => [[a]]
      | piece :: rest => (a :: piece) :: rest

theorem pieces_ne_nil (p : α → Bool) (as : List α) : pieces p as ≠ [] := by
  cases as with
  | nil => simp [pieces]
  | cons a as =>
    simp only [pieces]
    split
    · simp
    · split <;> simp

theorem pieces_pure (p : α → Bool) (as : List α) : ∀ piece ∈ pieces p as, ∀ a ∈ piece, ¬ p a := by
  induction as with
  | nil => simp [pieces]
  | cons a as ih =>
    simp only [pieces]
    split
    · simpa using ih
    · next ha =>
      split
      · simpa using ha
      · next piece rest heq =>
        rw [heq, List.forall_mem_cons] at ih
        simp only [List.forall_mem_cons]
        exact ⟨⟨ha, ih.1⟩, ih.2⟩

/-- A list without separators is one piece. -/
theorem pieces_of_forall_not {p : α → Bool} {as : List α} (h : ∀ a ∈ as, ¬ p a) :
    pieces p as = [as] := by
  induction as with
  | nil => rfl
  | cons a as ih =>
    rw [pieces, if_neg (h a List.mem_cons_self), ih fun b hb => h b (List.mem_cons_of_mem _ hb)]

/-- The pieces in front of a separator and those behind it are cut on their own. -/
theorem pieces_append_cons {p : α → Bool} {a : α} (ha : p a) (as bs : List α) :
    pieces p (as ++ a :: bs) = pieces p as ++ pieces p bs := by
  induction as with
  | nil => exact if_pos ha
  | cons b as ih =>
    rw [List.cons_append, pieces, pieces, ih]
    split
    · rfl
    · split
      · next heq => exact absurd (List.append_eq_nil_iff.mp heq).1 (pieces_ne_nil p as)
      · next piece rest heq =>
        obtain ⟨first, others, hfirst⟩ := List.exists_cons_of_ne_nil (pieces_ne_nil p as)
        rw [hfirst, List.cons_append] at heq
        obtain ⟨rfl, rfl⟩ := List.cons.inj heq
        rw [hfirst]
        rfl

/-- There is one piece more than there are separators. -/
theorem length_pieces [DecidableEq α] (sep : α) (as : List α) :
    (pieces (· == sep) as).length = as.count sep + 1 := by
  induction as with
  | nil => rfl
  | cons a as ih =>
    rw [pieces, List.count_cons]
    split
    · rw [List.length_cons, ih]
    · split
      · next hnil => exact absurd hnil (pieces_ne_nil _ as)
      · next piece rest hcut =>
        rw [hcut] at ih
        exact ih

/-- The pieces in a row, with the separator between neighbours. -/
def joined (sep : α) : List (List α) → List α
  | [] => []
  | [piece] => piece
  | piece :: rest => piece ++ sep :: joined sep rest

theorem joined_cons (sep : α) (piece : List α) {rest : List (List α)} (h : rest ≠ []) :
    joined sep (piece :: rest) = piece ++ sep :: joined sep rest := by
  cases rest with
  | nil => exact absurd rfl h
  | cons => rfl

theorem joined_cons_head (sep : α) (a : α) (piece : List α) (rest : List (List α)) :
    joined sep ((a :: piece) :: rest) = a :: joined sep (piece :: rest) := by
  cases rest <;> rfl

/-- Cutting at a separator and joining with it gives the list back. -/
theorem joined_pieces [DecidableEq α] (sep : α) (as : List α) :
    joined sep (pieces (· == sep) as) = as := by
  induction as with
  | nil => rfl
  | cons a as ih =>
    simp only [pieces]
    split
    · next h =>
      rw [joined_cons sep [] (pieces_ne_nil _ _), ih]
      simpa using (beq_iff_eq.mp h).symm
    · split
      · next heq => exact absurd heq (pieces_ne_nil _ _)
      · next piece rest heq => rw [joined_cons_head, ← heq, ih]

end KernelIsa
