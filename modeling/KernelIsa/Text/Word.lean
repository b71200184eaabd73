import KernelIsa.Text.Basic

/-!
# Text/Word — numbers of 64 bits, read and added

A word is a natural number below `Word.limit`.  `Word.read?` takes digits of a given base behind an
optional plus sign; `Word.add` reports the sums that leave 64 bits.
-/

namespace KernelIsa

/-- A sum left the range of 64 bits. -/
inductive Overflow
  | addition
  deriving DecidableEq, Repr

namespace Word

/-- Two to the power of 64, the first number that needs more than 64 bits. -/
def limit : Nat := 0x10000000000000000

/-- The value of a digit in a base up to sixteen, capitals and small letters alike. -/
def digit? (base : Nat) (c : Char) : Option Nat :=
  let value :=
    if '0' ≤ c && c ≤ '9' then c.toNat - '0'.toNat
    else if 'a' ≤ c && c ≤ 'f' then c.toNat - 'a'.toNat + 10
    else if 'A' ≤ c && c ≤ 'F' then c.toNat - 'A'.toNat + 10
    else base
  if value < base then some value else none

/-- The number that a row of digits denotes, continuing from `acc`. -/
def ofDigits? (base : Nat) (acc : Nat) : Text → Option Nat
  | [] => some acc
  | c :: t => (digit? base c).bind fun d => ofDigits? base (acc * base + d) t

/-- Reads a word: an optional plus sign, at least one digit, and nothing else. -/
def read? (base : Nat) (t : Text) : Option Nat :=
  let digits := if t.head? = some '+' then t.tail else t
  if digits.isEmpty then none
  else (ofDigits? base 0 digits).filter fun n => n < limit

/-- The sum of two words, if it is a word. -/
def add (a b : Nat) : Except Overflow Nat :=
  if a + b < limit then .ok (a + b) else .error .addition

theorem read?_lt {base n : Nat} {t : Text} (h : read? base t = some n) : n < limit := by
  simp only [read?] at h
  split at h <;> simp_all [Option.filter_eq_some_iff]

end Word

end KernelIsa
