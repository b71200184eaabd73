import KernelIsa.Text.Word
import Mathlib.Data.List.TakeWhile

/-!
# Proofs/Text/Tokens — blanks and the tokens between them

A run of blanks in front of a text does not matter to `trimStart`, and what stands behind a blank
does not matter to `firstToken`.  A text between other characters than blanks is trimmed already
(`trim_eq_self`), its tokens are the first one and those behind it (`tokens_eq`), and words with a
space between them are tokens (`tokens_joined`).  Where any characters are separators, the pieces
are the stretches between two of them (`mem_pieces_iff`).  No digit is a blank, and decimal digits
are read as the number that they denote (`Word.read?_of_isDigit`).
-/

namespace KernelIsa.Text

variable {indent w t p piece : Text} {b c : Char}

/-- A text is of one class, or has a first character outside it. -/
theorem all_or_cut (p : Char → Bool) (t : Text) : (∀ c ∈ t, p c) ∨
    ∃ before c after, t = before ++ c :: after ∧ (∀ d ∈ before, p d) ∧ ¬ p c := by
  induction t with
  | nil => exact .inl fun c hc => absurd hc List.not_mem_nil
  | cons c t ih =>
    by_cases hc : p c
    · rcases ih with h | ⟨before, d, after, rfl, h, hd⟩
      · exact .inl (List.forall_mem_cons.mpr ⟨hc, h⟩)
      · exact .inr ⟨c :: before, d, after, rfl, List.forall_mem_cons.mpr ⟨hc, h⟩, hd⟩
    · exact .inr ⟨[], c, t, rfl, fun d hd => absurd hd List.not_mem_nil, hc⟩

/-- The stretch of a class in front of a character outside it is told by the text. -/
theorem append_cons_inj {q : Char → Bool} {s s' t' : Text} {c' : Char} (hs : ∀ d ∈ s, q d)
    (hs' : ∀ d ∈ s', q d) (hc : ¬ q c) (hc' : ¬ q c') (h : s ++ c :: t = s' ++ c' :: t') :
    s = s' ∧ c = c' ∧ t = t' := by
  have htake (s t : Text) (c : Char) (hs : ∀ d ∈ s, q d) (hc : ¬ q c) :
      (s ++ c :: t).takeWhile q = s := by
    rw [List.takeWhile_append_of_pos hs, List.takeWhile_cons_of_neg hc, List.append_nil]
  obtain rfl : s = s' :=
    (htake s t c hs hc).symm.trans ((congrArg _ h).trans (htake s' t' c' hs' hc'))
  exact ⟨rfl, List.cons.inj (List.append_cancel_left h)⟩

theorem trimStart_append (h : ∀ c ∈ indent, isBlank c) :
    trimStart (indent ++ t) = trimStart t :=
  List.dropWhile_append_of_pos h

theorem trimStart_cons_of_not (h : ¬ isBlank c) : trimStart (c :: t) = c :: t :=
  List.dropWhile_cons_of_neg h

theorem not_isBlank_head_trimStart (t : Text) : ∀ c ∈ (trimStart t).head?, ¬ isBlank c := by
  intro c hc
  have hhead := List.head?_dropWhile_not isBlank t
  rw [← trimStart, Option.mem_def.mp hc] at hhead
  simpa using hhead

theorem not_isBlank_of_mem_firstToken (hc : c ∈ firstToken t) : ¬ isBlank c := by
  simpa using List.mem_takeWhile_imp hc

/-- What stands behind a character outside a class does not matter to the stretch of the class. -/
theorem takeWhile_append_cons {q : Char → Bool} (hc : ¬ q c) (p t : Text) :
    (p ++ c :: t).takeWhile q = p.takeWhile q := by
  rw [List.takeWhile_append]
  split
  · next h =>
    rw [List.takeWhile_cons_of_neg hc, List.append_nil]
    exact ((List.takeWhile_prefix _).eq_of_length h).symm
  · rfl

/-- The first token of a text is that of the stretch in front of any blank. -/
theorem firstToken_append_blank (hb : isBlank b) : firstToken (p ++ b :: t) = firstToken p :=
  takeWhile_append_cons (by simp [hb]) p t

theorem firstToken_eq_self (h : ∀ c ∈ w, ¬ isBlank c) : firstToken w = w :=
  List.takeWhile_eq_self_iff.mpr fun c hc => by simp [h c hc]

theorem lastToken_eq_self (h : ∀ c ∈ w, ¬ isBlank c) : lastToken w = w := by
  rw [lastToken, firstToken_eq_self fun c hc => h c (List.mem_reverse.mp hc), List.reverse_reverse]

/-- The last token of a text stands behind its last blank. -/
theorem lastToken_append_blank (hb : isBlank b) (hw : ∀ c ∈ w, ¬ isBlank c) :
    lastToken (p ++ b :: w) = w := by
  rw [lastToken, List.reverse_append, List.reverse_cons, List.append_assoc, List.singleton_append,
    firstToken_append_blank hb]
  exact lastToken_eq_self hw

theorem afterFirstToken_append_blank (h : ∀ c ∈ w, ¬ isBlank c) (hb : isBlank b) :
    afterFirstToken (w ++ b :: t) = b :: t := by
  rw [afterFirstToken, List.dropWhile_append_of_pos fun c hc => by simp [h c hc],
    List.dropWhile_cons_of_neg (by simp [hb])]

theorem afterFirstToken_eq_nil (h : ∀ c ∈ w, ¬ isBlank c) : afterFirstToken w = [] :=
  List.dropWhile_eq_nil_iff.mpr fun c hc => by simp [h c hc]

/-! ## Trimmed texts -/

theorem trimStart_eq_self (h : ∀ c ∈ t.head?, ¬ isBlank c) : trimStart t = t := by
  cases t with
  | nil => rfl
  | cons c t => exact trimStart_cons_of_not (h c rfl)

/-- Blanks at the end are those in front of the reversed text. -/
theorem trimEnd_eq_self (h : ∀ c ∈ t.getLast?, ¬ isBlank c) : trimEnd t = t := by
  have hreverse : trimStart t.reverse = t.reverse :=
    trimStart_eq_self fun c hc => h c (by rwa [List.head?_reverse] at hc)
  rw [trimEnd, dropEndWhile, ← trimStart, hreverse, List.reverse_reverse]

/-- **A text between other characters than blanks is trimmed.** -/
theorem trim_eq_self (hhead : ∀ c ∈ t.head?, ¬ isBlank c) (hlast : ∀ c ∈ t.getLast?, ¬ isBlank c) :
    trim t = t := by
  rw [trim, trimStart_eq_self hhead, trimEnd_eq_self hlast]

/-- Taking off a class at the end goes no further than a character outside it. -/
theorem dropEndWhile_append_cons {p : Char → Bool} {s : Text} (hc : ¬ p c) (front : Text) :
    dropEndWhile p (front ++ c :: s) = front ++ c :: dropEndWhile p s := by
  rw [dropEndWhile, dropEndWhile, List.reverse_append, List.reverse_cons, List.append_assoc,
    List.dropWhile_append]
  split
  · next hnil =>
    rw [List.isEmpty_iff.mp hnil, List.singleton_append, List.dropWhile_cons_of_neg hc]
    simp
  · simp

theorem dropEndWhile_eq_nil {p : Char → Bool} (h : ∀ c ∈ t, p c) : dropEndWhile p t = [] := by
  rw [dropEndWhile, List.reverse_eq_nil_iff, List.dropWhile_eq_nil_iff]
  exact fun c hc => h c (List.mem_reverse.mp hc)

/-- A text that starts with no blank keeps its start. -/
theorem trim_cons_of_not (hc : ¬ isBlank c) (t : Text) : trim (c :: t) = c :: trimEnd t := by
  rw [trim, trimStart_cons_of_not hc]
  exact dropEndWhile_append_cons hc []

theorem not_isBlank_head_trim (t : Text) : ∀ c ∈ (trim t).head?, ¬ isBlank c := by
  intro c hc
  rw [trim] at hc
  cases hstart : trimStart t with
  | nil =>
    rw [hstart] at hc
    cases hc
  | cons d rest =>
    have hd : ¬ isBlank d := not_isBlank_head_trimStart t d (hstart ▸ rfl)
    have htrim := trim_cons_of_not hd rest
    rw [trim, trimStart_cons_of_not hd] at htrim
    rw [hstart, htrim] at hc
    rwa [← Option.some.inj hc]

theorem trim_append_of_blank (h : ∀ c ∈ indent, isBlank c) (t : Text) :
    trim (indent ++ t) = trim t := by
  rw [trim, trimStart_append h, ← trim]

theorem trim_cons_blank (hb : isBlank b) (t : Text) : trim (b :: t) = trim t :=
  congrArg trimEnd (List.dropWhile_cons_of_pos hb)

/-- A text is its trimmed form between blanks. -/
theorem exists_trim (t : Text) : ∃ lead behind, t = lead ++ trim t ++ behind ∧
    (∀ c ∈ lead, isBlank c) ∧ ∀ c ∈ behind, isBlank c := by
  refine ⟨t.takeWhile isBlank, ((trimStart t).reverse.takeWhile isBlank).reverse, ?_,
    fun _ => List.mem_takeWhile_imp, fun c hc => List.mem_takeWhile_imp (List.mem_reverse.mp hc)⟩
  have hend : trimEnd (trimStart t) ++ ((trimStart t).reverse.takeWhile isBlank).reverse
      = trimStart t := by
    rw [trimEnd, dropEndWhile, ← List.reverse_append, List.takeWhile_append_dropWhile,
      List.reverse_reverse]
  rw [trim, List.append_assoc, hend, trimStart, List.takeWhile_append_dropWhile]

/-! ## Tokens -/

/-- The first piece of a text is empty exactly if a separator comes first. -/
theorem exists_pieces_eq_cons (p : Char → Bool) (t : Text) :
    ∃ piece rest, pieces p t = piece :: rest ∧ (piece = [] ↔ ∀ c ∈ t.head?, p c) := by
  cases t with
  | nil => exact ⟨[], [], rfl, by simp⟩
  | cons c t =>
    rw [pieces]
    split
    · next hc => exact ⟨[], pieces p t, rfl, by simpa using hc⟩
    · next hc =>
      split
      · exact ⟨[c], [], rfl, by simpa using hc⟩
      · next piece rest _ => exact ⟨c :: piece, rest, rfl, by simpa using hc⟩

/-- **The first piece is the stretch up to the first separator**, and the others are those behind
it. -/
theorem pieces_eq_cons_iff {p : Char → Bool} {rest : List Text} :
    pieces p t = piece :: rest ↔ (∀ c ∈ piece, ¬ p c) ∧
      (t = piece ∧ rest = [] ∨ ∃ s u, t = piece ++ s :: u ∧ p s ∧ rest = pieces p u) := by
  constructor
  · intro h
    refine ⟨pieces_pure p t piece (h ▸ List.mem_cons_self), ?_⟩
    rcases all_or_cut (fun c => !p c) t with hall | ⟨before, s, u, rfl, hbefore, hs⟩
    · rw [pieces_of_forall_not fun c hc => by simpa using hall c hc] at h
      obtain ⟨rfl, rfl⟩ := List.cons.inj h
      exact .inl ⟨rfl, rfl⟩
    · have hs' : p s := by simpa using hs
      rw [pieces_append_cons hs', pieces_of_forall_not fun c hc => by simpa using hbefore c hc] at h
      obtain ⟨rfl, rfl⟩ := List.cons.inj h
      exact .inr ⟨s, u, rfl, hs', rfl⟩
  · rintro ⟨hpiece, ⟨rfl, rfl⟩ | ⟨s, u, rfl, hs, rfl⟩⟩
    · exact pieces_of_forall_not hpiece
    · rw [pieces_append_cons hs, pieces_of_forall_not hpiece, List.singleton_append]

/-- **A piece is a stretch without separators, between two of them or the ends of the text.** -/
theorem mem_pieces_iff {p : Char → Bool} : piece ∈ pieces p t ↔ (∀ c ∈ piece, ¬ p c) ∧
    ∃ lead behind, t = lead ++ piece ++ behind ∧ (∀ c ∈ lead.getLast?, p c) ∧
      ∀ c ∈ behind.head?, p c := by
  constructor
  · intro h
    refine ⟨pieces_pure p t piece h, ?_⟩
    obtain ⟨before, after, hcut⟩ := List.append_of_mem h
    -- induction on the pieces in front of this one
    induction before generalizing t with
    | nil =>
      obtain ⟨-, ⟨rfl, -⟩ | ⟨s, u, rfl, hs, -⟩⟩ := pieces_eq_cons_iff.mp hcut
      · exact ⟨[], [], by simp, nofun, nofun⟩
      · exact ⟨[], s :: u, rfl, nofun, fun c hc => Option.some.inj hc ▸ hs⟩
    | cons first before ih =>
      obtain ⟨-, ⟨-, hnil⟩ | ⟨s, u, rfl, hs, hu⟩⟩ := pieces_eq_cons_iff.mp hcut
      · exact absurd hnil (by simp)
      · obtain ⟨lead, behind, rfl, hlead, hbehind⟩ := ih (hu ▸ by simp) hu.symm
        refine ⟨first ++ s :: lead, behind, by simp, fun c hc => ?_, hbehind⟩
        cases lead with
        | nil => exact Option.some.inj (by simpa using hc) ▸ hs
        | cons d lead => exact hlead c (by simpa using hc)
  · rintro ⟨hpiece, lead, behind, rfl, hlead, hbehind⟩
    have hfirst : piece ∈ pieces p (piece ++ behind) := by
      cases behind with
      | nil => simp [pieces_of_forall_not hpiece]
      | cons s behind =>
        rw [pieces_append_cons (hbehind s rfl), pieces_of_forall_not hpiece]
        exact List.mem_append_left _ List.mem_cons_self
    rw [List.append_assoc]
    rcases List.eq_nil_or_concat lead with rfl | ⟨lead, s, rfl⟩
    · exact hfirst
    · rw [List.concat_eq_append, List.append_assoc, List.singleton_append,
        pieces_append_cons (hlead s (by simp))]
      exact List.mem_append_right _ hfirst

theorem infix_of_mem_tokens (h : w ∈ tokens t) : w <:+: t := by
  obtain ⟨-, lead, behind, rfl, -⟩ := mem_pieces_iff.mp (List.mem_filter.mp h).1
  exact ⟨lead, behind, rfl⟩

theorem pieces_append (hw : ∀ c ∈ w, ¬ isBlank c) (hb : isBlank b) (t : Text) :
    pieces isBlank (w ++ b :: t) = w :: pieces isBlank t := by
  rw [pieces_append_cons hb, pieces_of_forall_not hw, List.singleton_append]

/-- The tokens in front of a blank and those behind it are read on their own. -/
theorem tokens_append_blank (hb : isBlank b) (s t : Text) :
    tokens (s ++ b :: t) = tokens s ++ tokens t := by
  rw [tokens, pieces_append_cons hb, List.filter_append]
  rfl

theorem tokens_append_of_blank (h : ∀ c ∈ indent, isBlank c) (t : Text) :
    tokens (indent ++ t) = tokens t := by
  induction indent with
  | nil => rfl
  | cons b indent ih =>
    obtain ⟨hb, hindent⟩ := List.forall_mem_cons.mp h
    exact (tokens_append_blank hb [] (indent ++ t)).trans (ih hindent)

/-- A word in front of a blank or at the end is a token. -/
theorem tokens_word (hne : w ≠ []) (hw : ∀ c ∈ w, ¬ isBlank c) (ht : ∀ c ∈ t.head?, isBlank c) :
    tokens (w ++ t) = w :: tokens t := by
  have hword : tokens w = [w] := by
    rw [tokens, pieces_of_forall_not hw, List.filter_cons_of_pos (by simpa using hne)]
    rfl
  cases t with
  | nil => rw [List.append_nil, hword]; rfl
  | cons b t =>
    have hblank := tokens_append_blank (ht b rfl)
    rw [hblank, hword]
    exact congrArg (w :: ·) (hblank [] t).symm

theorem blank_head_afterFirstToken (t : Text) : ∀ c ∈ (afterFirstToken t).head?, isBlank c := by
  intro c hc
  have hhead := List.head?_dropWhile_not (fun c => !isBlank c) t
  rw [← afterFirstToken, Option.mem_def.mp hc] at hhead
  simpa using hhead

/-- **The tokens are the first one**, behind any blanks, **and those that follow it.** -/
theorem tokens_eq (t : Text) : tokens t = if (trimStart t).isEmpty then []
    else firstToken (trimStart t) :: tokens (afterFirstToken (trimStart t)) := by
  have hindent : ∀ c ∈ t.takeWhile isBlank, isBlank c := fun c => List.mem_takeWhile_imp
  have hstart : tokens t = tokens (trimStart t) := calc
    tokens t = tokens (t.takeWhile isBlank ++ trimStart t) :=
      congrArg tokens List.takeWhile_append_dropWhile.symm
    _ = tokens (trimStart t) := tokens_append_of_blank hindent _
  rw [hstart]
  cases hcut : trimStart t with
  | nil => rfl
  | cons c s =>
    have hc : ¬ isBlank c := not_isBlank_head_trimStart t c (hcut ▸ rfl)
    have hne : firstToken (c :: s) ≠ [] := by simp [firstToken, hc]
    calc tokens (c :: s) = tokens (firstToken (c :: s) ++ afterFirstToken (c :: s)) :=
          congrArg tokens List.takeWhile_append_dropWhile.symm
      _ = firstToken (c :: s) :: tokens (afterFirstToken (c :: s)) :=
          tokens_word hne (fun _ => not_isBlank_of_mem_firstToken) (blank_head_afterFirstToken _)

/-- **Words with a space between them are the tokens.** -/
theorem tokens_joined {ws : List Text} (h : ∀ w ∈ ws, w ≠ [] ∧ ∀ c ∈ w, ¬ isBlank c) :
    tokens (joined ' ' ws) = ws := by
  have hpieces : ∀ ws : List Text, ws ≠ [] → (∀ w ∈ ws, ∀ c ∈ w, ¬ isBlank c) →
      pieces isBlank (joined ' ' ws) = ws := by
    intro ws
    induction ws with
    | nil => exact fun hne => absurd rfl hne
    | cons w ws ih =>
      intro _ hws
      obtain ⟨hw, hws⟩ := List.forall_mem_cons.mp hws
      cases ws with
      | nil => exact pieces_of_forall_not hw
      | cons w' ws => rw [joined_cons ' ' w (by simp), pieces_append hw (by decide), ih (by simp) hws]
  cases ws with
  | nil => rfl
  | cons w ws =>
    rw [tokens, hpieces _ (by simp) fun w hw => (h w hw).2, List.filter_eq_self]
    exact fun w hw => by simpa using (h w hw).1

end KernelIsa.Text

namespace KernelIsa.Word

variable {base : Nat} {c : Char}

/-- Digits lie between `0` and `f`. -/
theorem digit?_range (h : (digit? base c).isSome) : 48 ≤ c.toNat ∧ c.toNat ≤ 102 := by
  have hval : c.val.toNat = c.toNat := rfl
  rw [digit?] at h
  simp only [Bool.and_eq_true, decide_eq_true_eq, Char.le_def, UInt32.le_iff_toNat_le, hval] at h
  split at h
  · next hdigit => exact ⟨hdigit.1, Nat.le_trans hdigit.2 (by decide)⟩
  · split at h
    · next hsmall => exact ⟨Nat.le_trans (by decide) hsmall.1, hsmall.2⟩
    · split at h
      · next hcapital =>
        exact ⟨Nat.le_trans (by decide) hcapital.1, Nat.le_trans hcapital.2 (by decide)⟩
      · simp at h

theorem not_isBlank_of_digit? (h : (digit? base c).isSome) : ¬ Text.isBlank c := by
  have hrange := digit?_range h
  intro hblank
  simp [Text.isBlank] at hblank
  omega

/-! ## Decimal digits -/

theorem digit?_of_isDigit (h : c.isDigit) : digit? 10 c = some (c.toNat - '0'.toNat) := by
  have hrange : '0' ≤ c ∧ c ≤ '9' := by
    simpa [Char.isDigit, Char.le_def, UInt32.le_iff_toNat_le] using h
  have hlt : c.toNat - '0'.toNat < 10 := by
    have h9 : c.toNat ≤ 57 := hrange.2
    have h0 : '0'.toNat = 48 := rfl
    omega
  rw [digit?]
  simp only [hrange, decide_true, Bool.and_self, if_true, hlt]

theorem ofDigits?_of_isDigit (h : ∀ c ∈ t, c.isDigit) (acc : Nat) :
    ofDigits? 10 acc t = some (Nat.ofDigitChars 10 t acc) := by
  induction t generalizing acc with
  | nil => rfl
  | cons c t ih =>
    obtain ⟨hc, ht⟩ := List.forall_mem_cons.mp h
    rw [ofDigits?, digit?_of_isDigit hc, Option.bind_some, ih ht, Nat.mul_comm]
    rfl

/-- **Decimal digits are read as the number that they denote**, if that is a word. -/
theorem read?_of_isDigit (hne : t ≠ []) (h : ∀ c ∈ t, c.isDigit)
    (hlt : Nat.ofDigitChars 10 t 0 < limit) :
    read? 10 t = some (Nat.ofDigitChars 10 t 0) := by
  have hsign : t.head? ≠ some '+' := fun hhead =>
    absurd (h '+' (List.mem_of_head? hhead)) (by decide)
  simp only [read?, if_neg hsign, List.isEmpty_eq_false_iff.mpr hne, ofDigits?_of_isDigit h]
  simpa [Option.filter] using hlt

end KernelIsa.Word
