import KernelIsa.Text.Utf8

/-!
# Text/ControlSequence — texts without terminal control

Programs color what they write by control sequences, which start with the escape character.  `strip`
takes these and all control characters out of a text; line ends and tabulators stay, and a plain
text stays as it is (`strip_of_plain`).
-/

namespace KernelIsa.ControlSequence

/-- The character in front of a control sequence. -/
def escape : Char := '\x1b'

/-- Where a reader is in a control sequence. -/
inductive State
  /-- In plain text. -/
  | ground
  /-- Behind an escape character. -/
  | opened
  /-- Behind an escape character and a sign between space and `/`. -/
  | signed
  /-- Among parameters, which a letter ends. -/
  | parameters
  /-- In a command for the system, which a bell ends. -/
  | command
  /-- At the start of a device string. -/
  | device
  /-- Among the parameters of a device string. -/
  | deviceParameters
  /-- Behind a sign between space and `/` at the start of a device string. -/
  | deviceSigned
  /-- In a string, which the byte `0x9C` ends. -/
  | string
  deriving DecidableEq, Repr

namespace State

/-- Whether a character moves the text on without being printed. -/
def isLayout (c : Char) : Bool := c = '\t' || c = '\n' || c = '\r' || c = '\x0c'

/-- Whether a character is shown: any but control characters in plain text, and layout wherever no
string or command swallows it. -/
def shows (state : State) (c : Char) : Bool :=
  match state with
  | ground => isLayout c || 0x20 ≤ c.toNat && c.toNat ≠ 0x7F
  | opened | signed | parameters => isLayout c
  | _ => false

/-- The state behind the character that follows an escape character. -/
def opening (c : Char) : State :=
  if c = '[' then parameters
  else if c = ']' then command
  else if c = 'P' then device
  else if c = 'X' || c = '^' || c = '_' then string
  else if 0x20 ≤ c.toNat && c.toNat < 0x30 then signed
  else if 0x30 ≤ c.toNat && c.toNat < 0x7F then ground
  else opened

/-- The state behind a character at the start of a device string, where `stay` is the state in
front of it and a sign from `low` up to `?` goes to `onParameter`. -/
def inDevice (stay onParameter : State) (low : Nat) (c : Char) : State :=
  if 0x20 ≤ c.toNat && c.toNat < 0x30 then deviceSigned
  else if low ≤ c.toNat && c.toNat < 0x40 then onParameter
  else if 0x40 ≤ c.toNat && c.toNat < 0x7F then string
  else stay

/-- The state behind a character that is not shown.  An escape character opens a sequence wherever
it stands, and the cancelling characters end one. -/
def next (state : State) (c : Char) : State :=
  if c = escape then opened
  else if c = '\x18' || c = '\x1a' then ground
  else match state with
    | ground => ground
    | opened => opening c
    | signed => if 0x30 ≤ c.toNat && c.toNat < 0x7F then ground else signed
    | parameters => if 0x40 ≤ c.toNat && c.toNat < 0x7F then ground else parameters
    | command => if c = '\x07' then ground else command
    | device => inDevice device deviceParameters 0x30 c
    | deviceParameters => inDevice deviceParameters string 0x3C c
    | deviceSigned => inDevice deviceSigned string 0x30 c
    | string => if (Utf8.encode [c]).contains 0x9C then ground else string

end State

/-- Strips a text that is read from a state on.  Where something was just shown, plain text follows
whatever the state; the next control character takes the state up again. -/
def stripFrom (state : State) (isShown : Bool) : Text → Text
  | [] => []
  | c :: t =>
    if (if isShown then State.ground else state).shows c then
      c :: stripFrom (if c.toNat < 0x80 then state else .ground) true t
    else stripFrom (state.next c) false t

/-- The text without control sequences and control characters. -/
def strip (t : Text) : Text := stripFrom .ground false t

theorem stripFrom_of_plain {t : Text} (h : ∀ c ∈ t, State.ground.shows c) (isShown : Bool) :
    stripFrom .ground isShown t = t := by
  induction t generalizing isShown with
  | nil => rfl
  | cons c t ih =>
    have hc := h c List.mem_cons_self
    have ht := ih fun c' hc' => h c' (List.mem_cons_of_mem c hc')
    simp [stripFrom, hc, ht]

theorem strip_of_plain {t : Text} (h : ∀ c ∈ t, State.ground.shows c) : strip t = t :=
  stripFrom_of_plain h false

end KernelIsa.ControlSequence
