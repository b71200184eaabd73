import KernelIsa.Text.Basic

/-!
# Json/Value — JSON values and their indented form

`Json.render` writes a value with one item or field on each line, indented by two spaces for each
level; empty lists and objects stay on one line.
-/

namespace KernelIsa

/-- A JSON value without numbers. -/
inductive Json
  | null
  | bool (value : Bool)
  | text (value : Text)
  | list (items : List Json)
  | object (fields : List (Text × Json))

namespace Json

/-- A character as it stands in a quoted text. -/
def escape (c : Char) : Text :=
  if c = '"' then ['\\', '"']
  else if c = '\\' then ['\\', '\\']
  else if c = '\n' then ['\\', 'n']
  else if c = '\r' then ['\\', 'r']
  else if c = '\t' then ['\\', 't']
  else if c.toNat = 8 then ['\\', 'b']
  else if c.toNat = 12 then ['\\', 'f']
  else if c.toNat < 0x20 then
    ['\\', 'u', '0', '0', Nat.digitChar (c.toNat / 16), Nat.digitChar (c.toNat % 16)]
  else [c]

/-- A text in quotes. -/
def quote (t : Text) : Text := '"' :: t.flatMap escape ++ ['"']

/-- The start of a line at a level. -/
def indent (level : Nat) : Text := List.replicate (2 * level) ' '

/-- Written items between brackets, each on a line of its own. -/
def enclose (level : Nat) (opening closing : Char) (items : List Text) : Text :=
  if items.isEmpty then [opening, closing]
  else
    opening :: '\n' ::
      List.intercalate [',', '\n'] (items.map fun item => indent (level + 1) ++ item)
      ++ '\n' :: indent level ++ [closing]

mutual

/-- A value as it is written at a level. -/
def renderAt (level : Nat) : Json → Text
  | .null => "null".toList
  | .bool true => "true".toList
  | .bool false => "false".toList
  | .text value => quote value
  | .list items => enclose level '[' ']' (renderItems (level + 1) items)
  | .object fields => enclose level '\x7b' '\x7d' (renderFields (level + 1) fields)

/-- The items of a list as they are written. -/
def renderItems (level : Nat) : List Json → List Text
  | [] => []
  | item :: rest => renderAt level item :: renderItems level rest

/-- The fields of an object as they are written. -/
def renderFields (level : Nat) : List (Text × Json) → List Text
  | [] => []
  | (name, value) :: rest =>
    (quote name ++ ':' :: ' ' :: renderAt level value) :: renderFields level rest

end

/-- A value in indented form. -/
def render (value : Json) : Text := renderAt 0 value

end Json

end KernelIsa
