import KernelIsa.Proofs.Listing.StripLabels
import KernelIsa.Proofs.Text.Tokens

/-!
# Proofs/Listing/LabelMatches — stripping labels is a substitution

`Substituted` is a substitution as it is told in words: from left to right and without overlap, each
first match gives way to a text, and a match is first if none starts earlier and none that starts
there is longer.  That determines the result (`Substituted.unique`).  A character at which no match
starts is passed over (`Substituted.cons`), and an address starts nowhere in a run that something
else than ` <` ends (`not_isPrefix_of_isAddress`), so dropping addresses and closing brackets are
two substitutions, and both leave the line ends where they are (`strip_eq_iff`).
-/

namespace KernelIsa

namespace Text

variable {isMatch : Text → Prop} {new t u u' before before' m m' after after' : Text} {c : Char}

/-! ## Substitutions -/

/-- A match such that none starts earlier, and none that starts there is longer. -/
structure FirstMatch (isMatch : Text → Prop) (t before m after : Text) : Prop where
  parts : t = before ++ m ++ after
  sound : isMatch m
  leftmost : ∀ before' m' after', t = before' ++ m' ++ after' → isMatch m' →
    before.length ≤ before'.length
  longest : ∀ m' after', t = before ++ m' ++ after' → isMatch m' → m'.length ≤ m.length

theorem FirstMatch.unique (h : FirstMatch isMatch t before m after)
    (h' : FirstMatch isMatch t before' m' after') : before = before' ∧ m = m' ∧ after = after' := by
  have hparts : before ++ (m ++ after) = before' ++ (m' ++ after') := by
    rw [← List.append_assoc, ← List.append_assoc, ← h.parts, ← h'.parts]
  have hstart : before.length = before'.length :=
    Nat.le_antisymm (h.leftmost _ _ _ h'.parts h'.sound) (h'.leftmost _ _ _ h.parts h.sound)
  obtain ⟨rfl, hrest⟩ := List.append_inj hparts hstart
  have hlength : m.length = m'.length :=
    Nat.le_antisymm (h'.longest _ _ h.parts h.sound) (h.longest _ _ h'.parts h'.sound)
  exact ⟨rfl, List.append_inj hrest hlength⟩

/-- `u` is the text `t` with `new` in the place of each first match, from left to right and without
overlap. -/
inductive Substituted (isMatch : Text → Prop) (new : Text) : Text → Text → Prop
  | none {t : Text} (h : ∀ m, isMatch m → ¬ m <:+: t) : Substituted isMatch new t t
  | first {t before m after u : Text} (h : FirstMatch isMatch t before m after)
      (hrest : Substituted isMatch new after u) : Substituted isMatch new t (before ++ new ++ u)

theorem FirstMatch.isInfix (h : FirstMatch isMatch t before m after) : m <:+: t :=
  ⟨before, after, h.parts.symm⟩

/-- **A substitution has one result.** -/
theorem Substituted.unique (h : Substituted isMatch new t u) (h' : Substituted isMatch new t u') :
    u = u' := by
  induction h generalizing u' with
  | none hnone =>
    cases h' with
    | none => rfl
    | first hfirst => exact absurd hfirst.isInfix (hnone _ hfirst.sound)
  | first hfirst _ ih =>
    cases h' with
    | none hnone => exact absurd hfirst.isInfix (hnone _ hfirst.sound)
    | first hfirst' hrest' =>
      obtain ⟨rfl, rfl, rfl⟩ := hfirst.unique hfirst'
      rw [ih hrest']

theorem FirstMatch.cons (hc : ∀ m, isMatch m → ¬ m <+: c :: t)
    (h : FirstMatch isMatch t before m after) :
    FirstMatch isMatch (c :: t) (c :: before) m after where
  parts := congrArg (c :: ·) h.parts
  sound := h.sound
  leftmost before' m' after' hparts hm' := by
    cases before' with
    | nil => exact absurd ⟨after', hparts.symm⟩ (hc m' hm')
    | cons d before' =>
      exact Nat.succ_le_succ (h.leftmost before' m' after' (List.cons.inj hparts).2 hm')
  longest m' after' hparts hm' := h.longest m' after' (List.cons.inj hparts).2 hm'

/-- **A character at which no match starts is passed over.** -/
theorem Substituted.cons (hc : ∀ m, isMatch m → ¬ m <+: c :: t)
    (h : Substituted isMatch new t u) : Substituted isMatch new (c :: t) (c :: u) := by
  cases h with
  | none hnone =>
    refine .none fun m hm hin => ?_
    rcases List.infix_cons_iff.mp hin with hpre | hin
    · exact hc m hm hpre
    · exact hnone m hm hin
  | first hfirst hrest => exact .first (hfirst.cons hc) hrest

/-- A match at the start, the longest there, is a first one. -/
theorem Substituted.of_append (hm : isMatch m)
    (hlongest : ∀ m', isMatch m' → m' <+: m ++ t → m'.length ≤ m.length)
    (h : Substituted isMatch new t u) : Substituted isMatch new (m ++ t) (new ++ u) :=
  have hfirst : FirstMatch isMatch (m ++ t) [] m t :=
    { parts := rfl
      sound := hm
      leftmost := fun _ _ _ _ _ => Nat.zero_le _
      longest := fun m' after' hparts hm' => hlongest m' hm' ⟨after', hparts.symm⟩ }
  .first hfirst h

end Text

namespace LabelAddress

open Text

variable {run t m : Text} {c : Char}

/-! ## Addresses -/

/-- What is taken for an address: one or more letters and digits and the ` <` behind them. -/
def IsAddress (m : Text) : Prop :=
  ∃ run, run ≠ [] ∧ (∀ c ∈ run, c.isAlphanum) ∧ m = run ++ [' ', '<']

/-- A closing bracket of a label, with the colon behind it. -/
def IsClosing (m : Text) : Prop := m = ['>', ':']

/-- An address starts with a letter or digit. -/
theorem not_isPrefix_cons_of_isAddress (hm : IsAddress m) (hc : ¬ c.isAlphanum) :
    ¬ m <+: c :: t := by
  obtain ⟨address, hne, haddress, rfl⟩ := hm
  obtain ⟨d, address, rfl⟩ := List.exists_cons_of_ne_nil hne
  rintro ⟨rest, hrest⟩
  obtain rfl : d = c := (List.cons.inj hrest).1
  exact hc (haddress d List.mem_cons_self)

/-- **No address starts in a run that something else than ` <` ends.** -/
theorem not_isPrefix_of_isAddress (hm : IsAddress m) (hrun : ∀ d ∈ run, d.isAlphanum)
    (hc : ¬ c.isAlphanum) (hmark : c = ' ' → t.head? ≠ some '<') : ¬ m <+: run ++ c :: t := by
  obtain ⟨address, -, haddress, rfl⟩ := hm
  rintro ⟨rest, hrest⟩
  rw [List.append_assoc] at hrest
  obtain ⟨-, rfl, rfl⟩ := append_cons_inj haddress hrun (by decide) hc hrest
  exact hmark rfl rfl

theorem not_isInfix_of_isAddress (hm : IsAddress m) (hrun : ∀ d ∈ run, d.isAlphanum) :
    ¬ m <:+: run := by
  obtain ⟨address, -, -, rfl⟩ := hm
  intro hin
  exact absurd (hrun ' ' (hin.subset (by simp))) (by decide)

/-- A run that something else than ` <` ends is passed over. -/
theorem substituted_run {u : Text} (hrun : ∀ d ∈ run, d.isAlphanum) (hc : ¬ c.isAlphanum)
    (hmark : c = ' ' → t.head? ≠ some '<') (h : Substituted IsAddress [] t u) :
    Substituted IsAddress [] (run ++ c :: t) (run ++ c :: u) := by
  induction run with
  | nil => exact h.cons fun m hm => not_isPrefix_of_isAddress hm hrun hc hmark
  | cons d run ih =>
    exact (ih (List.forall_mem_cons.mp hrun).2).cons fun m hm =>
      not_isPrefix_of_isAddress hm hrun hc hmark

/-- An address is taken out where it starts. -/
theorem substituted_address {u : Text} (hne : run ≠ []) (hrun : ∀ d ∈ run, d.isAlphanum)
    (h : Substituted IsAddress [] t u) : Substituted IsAddress [] (run ++ ' ' :: '<' :: t) u := by
  have haddress : IsAddress (run ++ [' ', '<']) := ⟨run, hne, hrun, rfl⟩
  have hlongest : ∀ m, IsAddress m → m <+: run ++ [' ', '<'] ++ t →
      m.length ≤ (run ++ [' ', '<']).length := by
    rintro m ⟨other, -, hother, rfl⟩ ⟨rest, hrest⟩
    rw [List.append_assoc, List.append_assoc] at hrest
    obtain ⟨rfl, -⟩ := append_cons_inj hother hrun (by decide) (by decide) hrest
    exact Nat.le_refl _
  have hstep := Substituted.of_append haddress hlongest h
  rwa [List.append_assoc] at hstep

/-- **Dropping addresses behind a run of letters and digits takes each address out.** -/
theorem substituted_dropAddressesFrom (run t : Text) (hrun : ∀ d ∈ run, d.isAlphanum) :
    Substituted IsAddress [] (run.reverse ++ t) (dropAddressesFrom run t) := by
  have hreverse (run : Text) (hrun : ∀ d ∈ run, d.isAlphanum) :
      ∀ d ∈ run.reverse, d.isAlphanum := fun d hd => hrun d (List.mem_reverse.mp hd)
  fun_induction dropAddressesFrom run t with
  | case1 run =>
    rw [List.append_nil]
    exact .none fun m hm => not_isInfix_of_isAddress hm (hreverse run hrun)
  | case2 run t hnil ih =>
    -- ` <` behind nothing that could be an address
    obtain rfl := List.isEmpty_iff.mp hnil
    have hbracket := (ih (List.forall_mem_nil _)).cons fun m hm =>
      not_isPrefix_cons_of_isAddress (c := '<') hm (by decide)
    exact hbracket.cons fun m hm => not_isPrefix_cons_of_isAddress hm (by decide)
  | case3 run t hne ih =>
    exact substituted_address (by simpa using hne) (hreverse run hrun) (ih (List.forall_mem_nil _))
  | case4 run c t _ hc ih =>
    have h := ih (List.forall_mem_cons.mpr ⟨hc, hrun⟩)
    rwa [List.reverse_cons, List.append_assoc] at h
  | case5 run c t hmark hc ih =>
    refine substituted_run (hreverse run hrun) hc (fun hspace hhead => ?_) (ih (List.forall_mem_nil _))
    obtain ⟨rest, rfl⟩ := List.head?_eq_some_iff.mp hhead
    exact hmark rest hspace rfl

theorem dropAddressesFrom_append_mark {s : Text} (hrun : ∀ d ∈ run, d.isAlphanum)
    (hs : ¬ [' ', '<'] <:+: s) (t : Text) : dropAddressesFrom run (s ++ ' ' :: '<' :: t)
      = (if dropEndWhile Char.isAlphanum (run.reverse ++ s) = run.reverse ++ s
          then run.reverse ++ s ++ [' ', '<']
          else dropEndWhile Char.isAlphanum (run.reverse ++ s)) ++ dropAddresses t := by
  induction s generalizing run with
  | nil =>
    have hall : dropEndWhile Char.isAlphanum run.reverse = [] := by
      rw [dropEndWhile, List.reverse_reverse, List.dropWhile_eq_nil_iff.mpr hrun, List.reverse_nil]
    rw [List.nil_append, List.append_nil, hall, dropAddressesFrom]
    cases run with
    | nil => rfl
    | cons d run =>
      rw [if_neg (by simp), if_neg (by simp)]
      rfl
  | cons c s ih =>
    rw [List.infix_cons_iff, not_or] at hs
    rw [List.cons_append, dropAddressesFrom_cons (head?_append_ne hs.1 (by simp))]
    split
    · next hc =>
      rw [ih (List.forall_mem_cons.mpr ⟨hc, hrun⟩) hs.2, List.reverse_cons, List.append_assoc]
      rfl
    · next hc =>
      rw [ih (List.forall_mem_nil _) hs.2, dropEndWhile_append_cons hc, List.reverse_nil, List.nil_append]
      simp only [List.append_cancel_left_eq, List.cons.injEq, true_and]
      split <;> simp

/-- **An address is found from its end as well**: the first ` <` takes with it the letters and
digits in front, and stays where there are none. -/
theorem dropAddresses_append_mark {s : Text} (hs : ¬ [' ', '<'] <:+: s) (t : Text) :
    dropAddresses (s ++ ' ' :: '<' :: t)
      = (if dropEndWhile Char.isAlphanum s = s then s ++ [' ', '<']
          else dropEndWhile Char.isAlphanum s) ++ dropAddresses t :=
  dropAddressesFrom_append_mark (List.forall_mem_nil _) hs t

theorem substituted_dropClosing (t : Text) : Substituted IsClosing [':'] t (dropClosing t) := by
  fun_induction dropClosing t with
  | case1 => exact .none fun m hm hin => by cases hm.symm.trans (List.infix_nil.mp hin)
  | case2 t ih =>
    refine Substituted.of_append (m := ['>', ':']) rfl (fun m hm _ => ?_) ih
    rw [hm]
  | case3 c t hmark ih =>
    refine ih.cons ?_
    rintro m rfl ⟨rest, hrest⟩
    obtain ⟨rfl, rfl⟩ := List.cons.inj hrest
    exact hmark rest rfl rfl

/-! ## Line by line -/

/-- The pieces of a text between its line feeds are stripped on their own. -/
theorem pieces_strip (t : Text) :
    pieces (· == '\n') (strip t) = (pieces (· == '\n') t).map strip := by
  induction hlength : t.length using Nat.strongRecOn generalizing t with
  | ind n ih =>
    have hpure (s : Text) (hs : ∀ c ∈ s, c ≠ '\n') :
        pieces (· == '\n') (strip s) = (pieces (· == '\n') s).map strip := by
      have hnot : ∀ c ∈ s, ¬ (c == '\n') = true := fun c hc => by simpa using hs c hc
      rw [pieces_of_forall_not hnot,
        pieces_of_forall_not fun c hc => hnot c ((strip_sublist s).subset hc)]
      rfl
    rcases all_or_cut (fun c => decide (c ≠ '\n')) t with hall | ⟨s, d, u, rfl, hs, hd⟩
    · exact hpure t fun c hc => of_decide_eq_true (hall c hc)
    · obtain rfl : d = '\n' := by simpa using hd
      have hu : u.length < n := by
        rw [← hlength, List.length_append, List.length_cons]
        omega
      have hcut := pieces_append_cons (p := (· == '\n')) (beq_self_eq_true '\n')
      rw [strip_append_newline, hcut, hcut, List.map_append, ih _ hu u rfl,
        hpure s fun c hc => of_decide_eq_true (hs c hc)]

/-- **Stripping takes out each address and then each closing bracket**, from left to right: the
result is the one text that the two substitutions have.  It has the line feeds of the text, and
between them the lines of the text, each stripped on its own. -/
theorem strip_eq_iff (t : Text) :
    (∀ t', strip t = t' ↔ ∃ u, Substituted IsAddress [] t u ∧ Substituted IsClosing [':'] u t') ∧
    (strip t).count '\n' = t.count '\n' ∧
    pieces (· == '\n') (strip t) = (pieces (· == '\n') t).map strip := by
  have hdrop : Substituted IsAddress [] t (dropAddresses t) :=
    substituted_dropAddressesFrom [] t nofun
  refine ⟨fun t' => ⟨?_, ?_⟩, ?_, pieces_strip t⟩
  · rintro rfl
    exact ⟨_, hdrop, substituted_dropClosing _⟩
  · rintro ⟨u, hu, ht'⟩
    obtain rfl := hdrop.unique hu
    exact (substituted_dropClosing _).unique ht'
  · have hlength := congrArg List.length (pieces_strip t)
    rw [List.length_map, length_pieces, length_pieces] at hlength
    exact Nat.succ.inj hlength

end LabelAddress

end KernelIsa
