import KernelIsa.Collection.Pieces

/-!
# Text/Basic — texts, blanks, marks, bytes and lines

A text is a list of characters.  `splitAround?` cuts it around the first place where a mark stands;
`splitAround?_eq_some` says that nothing is lost in the cut.  Sizes and offsets are counted in bytes
of UTF-8 (`byteLength`), and `slice?` refuses offsets that fall inside a character.

A line ends at a line feed; one carriage return right before it belongs to the line end.  The last
line needs no line feed, then keeps a carriage return, and is left out when it is empty
(`lines_nil`).
-/

namespace KernelIsa

/-- A text, character by character. -/
abbrev Text := List Char

namespace Text

/-! ## Blanks -/

/-- The characters of Unicode's `White_Space` class. -/
def isBlank (c : Char) : Bool :=
  let n := c.toNat
  (9 ≤ n && n ≤ 13) || n == 0x20 || n == 0x85 || n == 0xA0 || n == 0x1680
    || (0x2000 ≤ n && n ≤ 0x200A) || n == 0x2028 || n == 0x2029 || n == 0x202F || n == 0x205F
    || n == 0x3000

/-- The text without its leading blanks. -/
def trimStart (t : Text) : Text := t.dropWhile isBlank

/-- The text without the trailing characters of a class. -/
def dropEndWhile (p : Char → Bool) (t : Text) : Text := (t.reverse.dropWhile p).reverse

/-- The text without its trailing blanks. -/
def trimEnd (t : Text) : Text := dropEndWhile isBlank t

/-- The text without the blanks at both ends. -/
def trim (t : Text) : Text := trimEnd (trimStart t)

/-- The characters up to the first blank. -/
def firstToken (t : Text) : Text := t.takeWhile fun c => !isBlank c

/-- What is left behind the first token, starting with the blank that ends it. -/
def afterFirstToken (t : Text) : Text := t.dropWhile fun c => !isBlank c

/-- The characters behind the last blank. -/
def lastToken (t : Text) : Text := (firstToken t.reverse).reverse

/-- The non-empty tokens between blanks. -/
def tokens (t : Text) : List Text := (pieces isBlank t).filter fun token => !token.isEmpty

/-- The text with its ASCII capitals made small. -/
def lower (t : Text) : Text := t.map Char.toLower

/-! ## Marks -/

/-- What follows `mark` in a text that starts with it. -/
def dropLead? : Text → Text → Option Text
  | [], t => some t
  | _ :: _, [] => none
  | m :: mark, c :: t => if m = c then dropLead? mark t else none

theorem dropLead?_eq_some_iff {mark t rest : Text} :
    dropLead? mark t = some rest ↔ t = mark ++ rest := by
  induction mark generalizing t with
  | nil => simp [dropLead?]
  | cons m mark ih =>
    cases t with
    | nil => simp [dropLead?]
    | cons c t =>
      by_cases h : m = c
      · simp [dropLead?, h, ih]
      · simp [dropLead?, h, Ne.symm h]

/-- Whether the text starts with the mark. -/
def startsWith (mark t : Text) : Bool := (dropLead? mark t).isSome

/-- The parts before and behind the first place where `mark` stands. -/
def splitAround? (mark : Text) : Text → Option (Text × Text)
  | [] => if mark.isEmpty then some ([], []) else none
  | c :: t => match dropLead? mark (c :: t) with
    | some rest => some ([], rest)
    | none => (splitAround? mark t).map fun parts => (c :: parts.1, parts.2)

/-- A cut puts the text back together with the mark between the parts. -/
theorem splitAround?_eq_some {mark t before after : Text}
    (h : splitAround? mark t = some (before, after)) : t = before ++ mark ++ after := by
  induction t generalizing before with
  | nil =>
    simp only [splitAround?] at h
    split at h <;> simp_all
  | cons c t ih =>
    simp only [splitAround?] at h
    split at h
    · next rest hrest =>
      obtain ⟨rfl, rfl⟩ : [] = before ∧ rest = after := by simpa using h
      exact dropLead?_eq_some_iff.mp hrest
    · obtain ⟨parts, hparts, heq⟩ := Option.map_eq_some_iff.mp h
      obtain ⟨rfl, rfl⟩ : c :: parts.1 = before ∧ parts.2 = after := by simpa using heq
      simpa using ih hparts

/-- Whether the mark stands anywhere in the text. -/
def hasMark (mark t : Text) : Bool := (splitAround? mark t).isSome

/-- The text without an ending, if it has that ending. -/
def dropEnding? (ending t : Text) : Option Text :=
  (dropLead? ending.reverse t.reverse).map List.reverse

/-! ## Bytes -/

/-- The length of the text in bytes of UTF-8. -/
def byteLength : Text → Nat
  | [] => 0
  | c :: t => c.utf8Size + byteLength t

@[simp] theorem byteLength_nil : byteLength [] = 0 := rfl

@[simp] theorem byteLength_cons (c : Char) (t : Text) :
    byteLength (c :: t) = c.utf8Size + byteLength t := rfl

@[simp] theorem byteLength_append (s t : Text) :
    byteLength (s ++ t) = byteLength s + byteLength t := by
  induction s with
  | nil => simp
  | cons c s ih => simp [ih, Nat.add_assoc]

/-- The text behind its first `n` bytes, if a character ends there. -/
def dropBytes? (n : Nat) : Text → Option Text
  | [] => if n = 0 then some [] else none
  | c :: t => if n = 0 then some (c :: t)
    else if c.utf8Size ≤ n then dropBytes? (n - c.utf8Size) t else none

/-- The first `n` bytes of the text, if a character ends there. -/
def takeBytes? (n : Nat) : Text → Option Text
  | [] => if n = 0 then some [] else none
  | c :: t => if n = 0 then some []
    else if c.utf8Size ≤ n then (takeBytes? (n - c.utf8Size) t).map (c :: ·) else none

/-- The bytes from `start` up to `stop`, if both are character boundaries in order. -/
def slice? (start stop : Nat) (t : Text) : Option Text :=
  if start ≤ stop then (dropBytes? start t).bind (takeBytes? (stop - start)) else none

/-! ## Lines -/

/-- The lines of a text, without their ends. -/
def lines : Text → List Text
  | [] => []
  | '\n' :: t => [] :: lines t
  | '\r' :: '\n' :: t => [] :: lines t
  | c :: t => match lines t with
    | [] => [[c]]
    | line :: rest => (c :: line) :: rest

@[simp] theorem lines_nil : lines [] = [] := rfl

/-- The text in which every line is ended by a line feed. -/
def ofLines (ls : List Text) : Text := ls.flatMap fun line => line ++ ['\n']

/-- The text behind the first line feed. -/
def afterLineFeed? (t : Text) : Option Text := (splitAround? ['\n'] t).map Prod.snd

/-- The pieces of a text that end at a line feed, without it, and what follows the last one. -/
def terminated : Text → List Text × Text
  | [] => ([], [])
  | c :: t =>
    let (pieces, rest) := terminated t
    if c = '\n' then ([] :: pieces, rest)
    else match pieces with
      | [] => ([], c :: rest)
      | piece :: pieces => ((c :: piece) :: pieces, rest)

end Text

/-- The decimal digits of a number. -/
def decimal (n : Nat) : Text := Nat.toDigits 10 n

end KernelIsa
