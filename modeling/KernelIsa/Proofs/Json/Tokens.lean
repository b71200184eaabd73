import KernelIsa.Json.Value
import KernelIsa.Text.Word
import Mathlib.Data.List.Forall2

/-!
# Proofs/Json/Tokens — the tokens of a written value

JSON is read in two stages.  In the first one, here, characters become tokens: marks, words and
quoted texts, with blanks between them (`tokens?`).  A text in quotes is a row of code units, of
which two surrogates make a character (`ofUnits?`).  What is written scans to its tokens wherever
it stands (`Scans`), and rows of tokens join as texts do (`Scans.append`); so a quoted text is one
token (`scans_quote`) and a value is the tokens of its parts between marks (`scans_renderAt`).
-/

namespace KernelIsa.Json

/-- The parts of a JSON text without numbers. -/
inductive Token
  | openList
  | closeList
  | openObject
  | closeObject
  | comma
  | colon
  /-- One of the three words. -/
  | word (value : Json)
  | text (value : Text)

namespace Token

/-- The token of a mark. -/
def mark? : Char → Option Token
  | '[' => some .openList
  | ']' => some .closeList
  | '\x7b' => some .openObject
  | '\x7d' => some .closeObject
  | ',' => some .comma
  | ':' => some .colon
  | _ => none

/-- What a word is recognized by: the letters behind the first one. -/
def word? : Char → Option (Text × Json)
  | 'n' => some ("ull".toList, .null)
  | 't' => some ("rue".toList, .bool true)
  | 'f' => some ("alse".toList, .bool false)
  | _ => none

/-- The code unit of a character behind a backslash. -/
def escaped? : Char → Option Nat
  | '"' => some 0x22
  | '\\' => some 0x5C
  | '/' => some 0x2F
  | 'b' => some 0x08
  | 'f' => some 0x0C
  | 'n' => some 0x0A
  | 'r' => some 0x0D
  | 't' => some 0x09
  | _ => none

end Token

/-- The characters of code units.  A high surrogate is kept until the low one behind it makes a
character of both; a surrogate by itself is none. -/
def ofUnits? : Option Nat → List Nat → Option Text
  | none, [] => some []
  | some _, [] => none
  | none, unit :: units =>
    if 0xD800 ≤ unit && unit < 0xDC00 then ofUnits? (some unit) units
    else if 0xDC00 ≤ unit && unit < 0xE000 then none
    else (ofUnits? none units).map (Char.ofNat unit :: ·)
  | some high, unit :: units =>
    if 0xDC00 ≤ unit && unit < 0xE000 then
      (ofUnits? none units).map
        (Char.ofNat (0x10000 + (high - 0xD800) * 0x400 + (unit - 0xDC00)) :: ·)
    else none

/-! ## The scanner -/

/-- Where a scanner stands. -/
inductive Scanner.Place
  | between
  /-- Inside a word, in front of some letters. -/
  | word (due : Text) (value : Json)
  /-- Inside a quoted text, behind some code units. -/
  | quoted (units : List Nat)
  /-- Behind a backslash in a quoted text. -/
  | escaped (units : List Nat)
  /-- In front of a digit of a code unit; `missing` more are to come. -/
  | digit (units : List Nat) (missing value : Nat)

/-- What is scanned of a text: whole tokens, and the next one in part. -/
structure Scanner where
  tokens : List Token
  place : Scanner.Place

namespace Scanner

/-- A character between tokens. -/
def between? (tokens : List Token) (c : Char) : Option Scanner :=
  if c = ' ' || c = '\t' || c = '\n' || c = '\r' then some ⟨tokens, .between⟩
  else if c = '"' then some ⟨tokens, .quoted []⟩
  else match Token.mark? c with
    | some token => some ⟨tokens ++ [token], .between⟩
    | none => (Token.word? c).map fun w => ⟨tokens, .word w.1 w.2⟩

/-- A character inside a word. -/
def letter? (tokens : List Token) (due : Text) (value : Json) (c : Char) : Option Scanner :=
  if due = [c] then some ⟨tokens ++ [.word value], .between⟩
  else if due.head? = some c then some ⟨tokens, .word due.tail value⟩
  else none

/-- A character inside a quoted text. -/
def quoted? (tokens : List Token) (units : List Nat) (c : Char) : Option Scanner :=
  if c = '"' then (ofUnits? none units).map fun t => ⟨tokens ++ [.text t], .between⟩
  else if c = '\\' then some ⟨tokens, .escaped units⟩
  else if c.toNat < 0x20 then none
  else some ⟨tokens, .quoted (units ++ [c.toNat])⟩

/-- A character behind a backslash. -/
def escaped? (tokens : List Token) (units : List Nat) (c : Char) : Option Scanner :=
  if c = 'u' then some ⟨tokens, .digit units 3 0⟩
  else (Token.escaped? c).map fun unit => ⟨tokens, .quoted (units ++ [unit])⟩

/-- A digit of a code unit. -/
def digit? (tokens : List Token) (units : List Nat) (missing value : Nat) (c : Char) :
    Option Scanner :=
  (Word.digit? 16 c).map fun d => match missing with
    | 0 => ⟨tokens, .quoted (units ++ [value * 16 + d])⟩
    | missing + 1 => ⟨tokens, .digit units missing (value * 16 + d)⟩

/-- The scanner behind one more character. -/
def step? (scanner : Scanner) (c : Char) : Option Scanner :=
  match scanner.place with
  | .between => between? scanner.tokens c
  | .word due value => letter? scanner.tokens due value c
  | .quoted units => quoted? scanner.tokens units c
  | .escaped units => escaped? scanner.tokens units c
  | .digit units missing value => digit? scanner.tokens units missing value c

/-- The scanner behind a text. -/
def run? (scanner : Scanner) (t : Text) : Option Scanner := t.foldlM step? scanner

theorem run?_append (scanner : Scanner) (s t : Text) :
    scanner.run? (s ++ t) = (scanner.run? s).bind fun next => next.run? t :=
  List.foldlM_append

theorem run?_cons (scanner : Scanner) (c : Char) (t : Text) :
    scanner.run? (c :: t) = (scanner.step? c).bind fun next => next.run? t :=
  List.foldlM_cons

theorem run?_quoted_cons (tokens : List Token) (units : List Nat) (c : Char) (t : Text) :
    (Scanner.mk tokens (.quoted units)).run? (c :: t)
      = (quoted? tokens units c).bind fun next => next.run? t :=
  run?_cons _ c t

theorem run?_digit_cons (tokens : List Token) (units : List Nat) (missing value : Nat) (c : Char)
    (t : Text) : (Scanner.mk tokens (.digit units missing value)).run? (c :: t)
      = (digit? tokens units missing value c).bind fun next => next.run? t :=
  run?_cons _ c t

/-- The tokens at the end of the text, unless it ends inside one. -/
def finish? (scanner : Scanner) : Option (List Token) :=
  match scanner.place with
  | .between => some scanner.tokens
  | _ => none

end Scanner

/-- The tokens of a text. -/
def tokens? (t : Text) : Option (List Token) :=
  ((Scanner.mk [] .between).run? t).bind Scanner.finish?

/-! ## Quoted texts -/

section Scanning

open Scanner

variable {tokens ts ts' : List Token} {units : List Nat} {c : Char} {s t : Text}

/-- **The numbers of characters are their code units**, for no character is a surrogate. -/
theorem ofUnits?_toNat (t : Text) : ofUnits? none (t.map Char.toNat) = some t := by
  induction t with
  | nil => rfl
  | cons c t ih =>
    have hvalid : c.toNat < 0xD800 ∨ 0xDFFF < c.toNat ∧ c.toNat < 0x110000 := c.valid
    rw [List.map_cons, ofUnits?, if_neg, if_neg, ih, Char.ofNat_toNat, Option.map_some]
    · simp only [Bool.and_eq_true, decide_eq_true_eq]
      omega
    · simp only [Bool.and_eq_true, decide_eq_true_eq]
      omega

theorem digit?_digitChar {d : Nat} (h : d < 16) : Word.digit? 16 (Nat.digitChar d) = some d := by
  have hall : ∀ d < 16, Word.digit? 16 (Nat.digitChar d) = some d := by decide
  exact hall d h

/-- The digits of a number below 0x20 are read as the number. -/
theorem run_digits {n : Nat} (h : n < 0x20) :
    (Scanner.mk tokens (.digit units 3 0)).run?
      ['0', '0', Nat.digitChar (n / 16), Nat.digitChar (n % 16)]
        = some ⟨tokens, .quoted (units ++ [n])⟩ := by
  have hzeros : (Scanner.mk tokens (.digit units 3 0)).run?
      ['0', '0', Nat.digitChar (n / 16), Nat.digitChar (n % 16)]
        = (Scanner.mk tokens (.digit units 1 0)).run?
          [Nat.digitChar (n / 16), Nat.digitChar (n % 16)] := rfl
  have hread : (Scanner.mk tokens (.digit units 1 0)).run?
      [Nat.digitChar (n / 16), Nat.digitChar (n % 16)]
        = some ⟨tokens, .quoted (units ++ [(0 * 16 + n / 16) * 16 + n % 16])⟩ := by
    rw [run?_digit_cons, Scanner.digit?, digit?_digitChar (by omega), Option.map_some,
      Option.bind_some, run?_digit_cons, Scanner.digit?, digit?_digitChar (by omega)]
    rfl
  have hvalue : (0 * 16 + n / 16) * 16 + n % 16 = n := by omega
  rw [hzeros, hread, hvalue]

/-- **An escaped character is read as the character.** -/
theorem run_escape (c : Char) :
    (Scanner.mk tokens (.quoted units)).run? (escape c)
      = some ⟨tokens, .quoted (units ++ [c.toNat])⟩ := by
  rw [escape]
  split
  · next h => rw [h]; rfl
  split
  · next h => rw [h]; rfl
  split
  · next h => rw [h]; rfl
  split
  · next h => rw [h]; rfl
  split
  · next h => rw [h]; rfl
  split
  · next h => rw [h]; rfl
  split
  · next h => rw [h]; rfl
  split
  · next h => exact run_digits h
  · next hquote hbackslash _ _ _ _ _ hprintable =>
    rw [run?_quoted_cons, quoted?, if_neg hquote, if_neg hbackslash, if_neg hprintable]
    rfl

/-- **What is written scans to some tokens**, whatever was scanned before. -/
def Scans (t : Text) (ts : List Token) : Prop :=
  ∀ tokens, (Scanner.mk tokens .between).run? t = some ⟨tokens ++ ts, .between⟩

theorem Scans.append (hs : Scans s ts) (ht : Scans t ts') : Scans (s ++ t) (ts ++ ts') := by
  intro tokens
  rw [run?_append, hs, Option.bind_some, ht, List.append_assoc]

theorem tokens?_of_scans (h : Scans t ts) : tokens? t = some ts := by
  rw [tokens?, h, List.nil_append]
  rfl

theorem run_escaped (t : Text) :
    (Scanner.mk tokens (.quoted units)).run? (t.flatMap escape)
      = some ⟨tokens, .quoted (units ++ t.map Char.toNat)⟩ := by
  induction t generalizing units with
  | nil => rw [List.map_nil, List.append_nil]; rfl
  | cons c t ih =>
    rw [List.flatMap_cons, run?_append, run_escape, Option.bind_some, ih, List.append_assoc]
    rfl

/-- **A text in quotes is one token.** -/
theorem scans_quote (t : Text) : Scans (quote t) [.text t] := by
  intro tokens
  have hclose : (Scanner.mk tokens (.quoted (t.map Char.toNat))).run? ['"']
      = some ⟨tokens ++ [.text t], .between⟩ := by
    rw [run?_quoted_cons, quoted?, if_pos rfl, ofUnits?_toNat]
    rfl
  have hopen : (Scanner.mk tokens .between).run? (quote t)
      = (Scanner.mk tokens (.quoted [])).run? (t.flatMap escape ++ ['"']) := rfl
  rw [hopen, run?_append, run_escaped, Option.bind_some, List.nil_append, hclose]

/-! ## Rows -/

theorem scans_nil : Scans [] [] := fun tokens => by rw [List.append_nil]; rfl

theorem scans_mark {token : Token} (h : Token.mark? c = some token) : Scans [c] [token] := by
  rw [Token.mark?.eq_def] at h
  split at h
  case h_7 => cases h
  all_goals
    obtain rfl := Option.some.inj h
    exact fun tokens => rfl

theorem scans_blanks (h : ∀ c ∈ t, c = ' ' ∨ c = '\n') : Scans t [] := by
  intro tokens
  rw [List.append_nil]
  induction t with
  | nil => rfl
  | cons c t ih =>
    obtain ⟨hc, ht⟩ := List.forall_mem_cons.mp h
    rcases hc with rfl | rfl
    · exact ih ht
    · exact ih ht

theorem scans_indent (level : Nat) : Scans (indent level) [] :=
  scans_blanks fun _ hc => .inl (List.eq_of_mem_replicate hc)

/-- Items with commas and line feeds between them scan to their tokens with commas. -/
theorem scans_intercalate {items : List Text} {tss : List (List Token)}
    (h : List.Forall₂ Scans items tss) :
    Scans (List.intercalate [',', '\n'] items) (List.intercalate [.comma] tss) := by
  have hcomma : Scans [',', '\n'] [.comma] := fun tokens => rfl
  induction h with
  | nil => exact scans_nil
  | cons hitem hrest ih =>
    cases hrest with
    | nil =>
      rw [List.intercalate_singleton, List.intercalate_singleton]
      exact hitem
    | cons =>
      rw [List.intercalate_cons_cons, List.intercalate_cons_cons]
      exact (hitem.append hcomma).append ih

/-- **Enclosed items scan to their tokens**, with commas between them and marks around. -/
theorem scans_enclose {level : Nat} {opening closing : Char} {first last : Token}
    {items : List Text} {tss : List (List Token)} (hfirst : Token.mark? opening = some first)
    (hlast : Token.mark? closing = some last) (h : List.Forall₂ Scans items tss) :
    Scans (enclose level opening closing items)
      (first :: List.intercalate [.comma] tss ++ [last]) := by
  have hindented : List.Forall₂ Scans (items.map fun item => indent (level + 1) ++ item) tss :=
    List.forall₂_map_left_iff.mpr (h.imp fun _ _ hitem => (scans_indent (level + 1)).append hitem)
  have hfeed : Scans ['\n'] [] := scans_blanks (by simp)
  rw [enclose]
  split
  · next hempty =>
    obtain rfl := List.isEmpty_iff.mp hempty
    cases h
    exact (scans_mark hfirst).append (scans_mark hlast)
  · have hopen := ((scans_mark hfirst).append hfeed).append (scans_intercalate hindented)
    have hclose := (hfeed.append (scans_indent level)).append (scans_mark hlast)
    simpa using hopen.append hclose

end Scanning

/-! ## Values -/

mutual

/-- The tokens of a value. -/
def tokens : Json → List Token
  | .null => [.word .null]
  | .bool value => [.word (.bool value)]
  | .text value => [.text value]
  | .list items => .openList :: List.intercalate [.comma] (itemTokens items) ++ [.closeList]
  | .object fields =>
    .openObject :: List.intercalate [.comma] (fieldTokens fields) ++ [.closeObject]

/-- The tokens of each item. -/
def itemTokens : List Json → List (List Token)
  | [] => []
  | item :: rest => tokens item :: itemTokens rest

/-- The tokens of each field. -/
def fieldTokens : List (Text × Json) → List (List Token)
  | [] => []
  | (name, value) :: rest => (.text name :: .colon :: tokens value) :: fieldTokens rest

end

mutual

/-- **A value scans to its tokens**, at any level. -/
theorem scans_renderAt (level : Nat) : ∀ value, Scans (renderAt level value) (tokens value)
  | .null => fun _ => rfl
  | .bool true => fun _ => rfl
  | .bool false => fun _ => rfl
  | .text value => scans_quote value
  | .list items => scans_enclose rfl rfl (scans_renderItems (level + 1) items)
  | .object fields => scans_enclose rfl rfl (scans_renderFields (level + 1) fields)

theorem scans_renderItems (level : Nat) :
    ∀ items, List.Forall₂ Scans (renderItems level items) (itemTokens items)
  | [] => .nil
  | item :: rest => .cons (scans_renderAt level item) (scans_renderItems level rest)

theorem scans_renderFields (level : Nat) :
    ∀ fields, List.Forall₂ Scans (renderFields level fields) (fieldTokens fields)
  | [] => .nil
  | (name, value) :: rest =>
    have hcolon : Scans [':', ' '] [.colon] := fun _ => rfl
    have hfield := ((scans_quote name).append hcolon).append (scans_renderAt level value)
    .cons (by simpa using hfield) (scans_renderFields level rest)

end

end KernelIsa.Json
