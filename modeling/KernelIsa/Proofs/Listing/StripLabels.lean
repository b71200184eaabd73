import KernelIsa.Listing.Split
import KernelIsa.Proofs.Text.Marks
import KernelIsa.Proofs.Text.Lines

/-!
# Proofs/Listing/StripLabels — labels stripped line by line

No label address reaches over a line end, so `strip` works line by line (`strip_ofLines`).  It takes
the address off a printed label (`strip_label`), leaves alone what holds neither ` <` nor `>:`
(`strip_eq_self`), and only takes characters away (`strip_sublist`).
-/

namespace KernelIsa.LabelAddress

open Text

variable {run s t address name : Text} {c : Char} {ls : List Text}

/-! ## One character -/

/-- A pair that does not start a stretch starts nothing that goes on with something else. -/
theorem head?_append_ne {a d : Char} (h : ¬ [a, d] <+: c :: s) (ht : t.head? ≠ some d) :
    c = a → (s ++ t).head? ≠ some d := by
  rintro rfl
  cases s with
  | nil => exact ht
  | cons e s => exact fun he => h ⟨s, by rw [Option.some.inj he]; rfl⟩

theorem head?_ne {a d : Char} (h : ¬ [a, d] <+: c :: t) : c = a → t.head? ≠ some d := by
  have hhead := head?_append_ne (t := []) h nofun
  rwa [List.append_nil] at hhead

/-- A character that does not start ` <` belongs to the run or ends it. -/
theorem dropAddressesFrom_cons (h : c = ' ' → t.head? ≠ some '<') : dropAddressesFrom run (c :: t) =
    if c.isAlphanum then dropAddressesFrom (c :: run) t
    else run.reverse ++ c :: dropAddressesFrom [] t := by
  rw [dropAddressesFrom]
  exact fun u hc hu => h hc (by rw [hu]; rfl)

theorem dropClosing_cons (h : c = '>' → t.head? ≠ some ':') :
    dropClosing (c :: t) = c :: dropClosing t := by
  rw [dropClosing]
  exact fun u hc hu => h hc (by rw [hu]; rfl)

/-! ## Line by line -/

theorem head?_append_newline {d : Char} (hd : d ≠ '\n') (h : ∀ u, s = d :: u → False) :
    (s ++ '\n' :: t).head? ≠ some d := by
  cases s with
  | nil => simpa using hd.symm
  | cons e s =>
    intro he
    exact h s (by rw [Option.some.inj he])

theorem dropAddressesFrom_append (run s t : Text) :
    dropAddressesFrom run (s ++ '\n' :: t) =
      dropAddressesFrom run s ++ '\n' :: dropAddresses t := by
  fun_induction dropAddressesFrom run s with
  | case1 run =>
    rw [List.nil_append, dropAddressesFrom_cons fun h => absurd h (by decide), if_neg (by decide)]
    rfl
  | case2 run s h ih =>
    rw [List.cons_append, List.cons_append, dropAddressesFrom, if_pos h, ih]
    rfl
  | case3 run s h ih => rw [List.cons_append, List.cons_append, dropAddressesFrom, if_neg h, ih]
  | case4 run c s hc h ih =>
    have hhead := fun e => head?_append_newline (t := t) (by decide) fun u => hc u e
    rw [List.cons_append, dropAddressesFrom_cons hhead, if_pos h, ih]
  | case5 run c s hc h ih =>
    have hhead := fun e => head?_append_newline (t := t) (by decide) fun u => hc u e
    rw [List.cons_append, dropAddressesFrom_cons hhead, if_neg h, ih, List.append_assoc]
    rfl

theorem dropClosing_append (s t : Text) :
    dropClosing (s ++ '\n' :: t) = dropClosing s ++ '\n' :: dropClosing t := by
  fun_induction dropClosing s with
  | case1 => exact dropClosing_cons fun h => absurd h (by decide)
  | case2 s ih =>
    rw [List.cons_append, List.cons_append, dropClosing, ih]
    rfl
  | case3 c s hc ih =>
    have hhead := fun e => head?_append_newline (t := t) (by decide) fun u => hc u e
    rw [List.cons_append, dropClosing_cons hhead, ih]
    rfl

theorem strip_append_newline (s t : Text) :
    strip (s ++ '\n' :: t) = strip s ++ '\n' :: strip t := by
  rw [strip, dropAddresses, dropAddressesFrom_append, dropClosing_append]
  rfl

/-- **Stripping works line by line.** -/
theorem strip_ofLines (ls : List Text) : strip (ofLines ls) = ofLines (ls.map strip) := by
  induction ls with
  | nil => rfl
  | cons l ls ih => rw [List.map_cons, ofLines_cons, ofLines_cons, ← ih, strip_append_newline]

/-! ## Lines without labels -/

theorem dropAddressesFrom_eq (h : ¬ [' ', '<'] <:+: t) :
    dropAddressesFrom run t = run.reverse ++ t := by
  induction t generalizing run with
  | nil => exact (List.append_nil _).symm
  | cons c t ih =>
    rw [List.infix_cons_iff, not_or] at h
    rw [dropAddressesFrom_cons (head?_ne h.1), ih h.2, ih h.2]
    split
    · rw [List.reverse_cons, List.append_assoc]
      rfl
    · rfl

theorem dropClosing_eq (h : ¬ ['>', ':'] <:+: t) : dropClosing t = t := by
  induction t with
  | nil => rfl
  | cons c t ih =>
    rw [List.infix_cons_iff, not_or] at h
    rw [dropClosing_cons (head?_ne h.1), ih h.2]

/-- **What holds no part of a label is left alone.** -/
theorem strip_eq_self (hopen : ¬ [' ', '<'] <:+: t) (hclose : ¬ ['>', ':'] <:+: t) :
    strip t = t := by
  rw [strip, dropAddresses, dropAddressesFrom_eq hopen, List.reverse_nil, List.nil_append,
    dropClosing_eq hclose]

/-! ## Labels -/

/-- A run in front of ` <` is dropped together with it. -/
theorem dropAddressesFrom_address (h : ∀ c ∈ address, c.isAlphanum) (hne : address ++ run ≠ []) :
    dropAddressesFrom run (address ++ ' ' :: '<' :: t) = dropAddresses t := by
  induction address generalizing run with
  | nil =>
    rw [List.nil_append] at hne ⊢
    rw [dropAddressesFrom, if_neg (by simpa using hne)]
    rfl
  | cons c address ih =>
    obtain ⟨hc, haddress⟩ := List.forall_mem_cons.mp h
    have hspace : c ≠ ' ' := fun e => absurd hc (by rw [e]; decide)
    rw [List.cons_append, dropAddressesFrom_cons fun e => absurd e hspace, if_pos hc,
      ih haddress (by simp)]

/-- So is one behind a space that ends a stretch without ` <`. -/
theorem dropAddressesFrom_append_address (hs : ¬ [' ', '<'] <:+: s) (hne : address ≠ [])
    (ha : ∀ c ∈ address, c.isAlphanum) :
    dropAddressesFrom run (s ++ ' ' :: (address ++ ' ' :: '<' :: t))
      = run.reverse ++ s ++ ' ' :: dropAddresses t := by
  induction s generalizing run with
  | nil =>
    obtain ⟨d, rest, rfl⟩ := List.exists_cons_of_ne_nil hne
    have hd : d ≠ '<' := fun e => absurd (ha d List.mem_cons_self) (by rw [e]; decide)
    rw [List.nil_append, dropAddressesFrom_cons fun _ => by simpa using hd, if_neg (by decide),
      dropAddressesFrom_address ha (by simp), List.append_nil]
  | cons c s ih =>
    rw [List.infix_cons_iff, not_or] at hs
    rw [List.cons_append, dropAddressesFrom_cons (head?_append_ne hs.1 (by simp)), ih hs.2, ih hs.2]
    split <;> simp

theorem dropClosing_label (h : '>' ∉ name) : dropClosing (name ++ ['>', ':']) = name ++ [':'] := by
  induction name with
  | nil => rfl
  | cons c name ih =>
    have hc : c ≠ '>' := fun e => h (e ▸ List.mem_cons_self)
    rw [List.cons_append, dropClosing_cons fun e => absurd e hc,
      ih fun hmem => h (List.mem_cons_of_mem _ hmem)]
    rfl

/-- **A printed label loses its address and its brackets.** -/
theorem strip_label (hne : address ≠ []) (ha : ∀ c ∈ address, c.isAlphanum) (hopen : '<' ∉ name)
    (hclose : '>' ∉ name) :
    strip (address ++ ' ' :: '<' :: (name ++ ['>', ':'])) = name ++ [':'] := by
  have hno : ¬ [' ', '<'] <:+: name ++ ['>', ':'] := fun hin => by
    have hmem : '<' ∈ name ++ ['>', ':'] := hin.subset (by decide)
    simp [hopen] at hmem
  rw [strip, dropAddresses, dropAddressesFrom_address ha (by simpa using hne), dropAddresses,
    dropAddressesFrom_eq hno]
  exact dropClosing_label hclose

/-! ## What is left -/

theorem dropAddressesFrom_sublist (run t : Text) :
    (dropAddressesFrom run t).Sublist (run.reverse ++ t) := by
  fun_induction dropAddressesFrom run t with
  | case1 run => exact (List.append_nil _).symm ▸ List.Sublist.refl _
  | case2 run t hnil ih =>
    obtain rfl := List.isEmpty_iff.mp hnil
    exact (ih.cons_cons '<').cons_cons ' '
  | case3 run t _ ih =>
    exact ((ih.cons '<').cons ' ').trans (List.sublist_append_right _ _)
  | case4 run c t _ _ ih => rwa [List.reverse_cons, List.append_assoc] at ih
  | case5 run c t _ _ ih => exact (List.append_sublist_append_left _).mpr (ih.cons_cons c)

theorem dropClosing_sublist (t : Text) : (dropClosing t).Sublist t := by
  fun_induction dropClosing t with
  | case1 => exact List.Sublist.refl _
  | case2 t ih => exact (ih.cons_cons ':').cons '>'
  | case3 c t _ ih => exact ih.cons_cons c

/-- **Stripping only takes characters away.** -/
theorem strip_sublist (t : Text) : (strip t).Sublist t :=
  (dropClosing_sublist _).trans (dropAddressesFrom_sublist [] t)

/-- **A text does not grow when its labels lose their addresses.** -/
theorem byteLength_strip (t : Text) : byteLength (strip t) ≤ byteLength t :=
  byteLength_le_of_sublist (strip_sublist t)

end KernelIsa.LabelAddress
