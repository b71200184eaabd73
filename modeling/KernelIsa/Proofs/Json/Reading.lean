import KernelIsa.Proofs.Json.Tokens

/-!
# Proofs/Json/Reading — a written value is read back

The second stage of reading JSON goes from tokens to a value (`ofTokens?`).  Its `Reader` keeps the
lists and objects that are open around the next token; the tokens of a value bring it behind this
value and leave what is open as it was (`run_tokens`).  Together with the tokens of what is written
this makes `read?` the inverse of `render` (`read?_render`).
-/

namespace KernelIsa.Json

/-! ## The reader -/

/-- What is open around a value: a list behind some items, or an object behind some fields and the
name of the next one. -/
inductive Reader.Frame
  | list (items : List Json)
  | field (fields : List (Text × Json)) (name : Text)

/-- What may be next. -/
inductive Reader.Place
  /-- A value. -/
  | value
  /-- The first item of a list, or its end. -/
  | firstItem
  /-- The first name of an object, or its end. -/
  | firstName
  /-- The name of a field behind some others. -/
  | name (fields : List (Text × Json))
  /-- The colon behind the name of a field. -/
  | colon (fields : List (Text × Json)) (name : Text)
  /-- What follows a value. -/
  | behind (value : Json)

/-- What is read of a row of tokens. -/
structure Reader where
  frames : List Reader.Frame
  place : Reader.Place

namespace Reader

/-- The reader behind the first token of a value. -/
def begin? (frames : List Frame) : Token → Option Reader
  | .word value => some ⟨frames, .behind value⟩
  | .text value => some ⟨frames, .behind (.text value)⟩
  | .openList => some ⟨frames, .firstItem⟩
  | .openObject => some ⟨frames, .firstName⟩
  | _ => none

/-- The reader behind the token that follows a value. -/
def follow? (value : Json) : List Frame → Token → Option Reader
  | .list items :: frames, .comma => some ⟨.list (items ++ [value]) :: frames, .value⟩
  | .list items :: frames, .closeList => some ⟨frames, .behind (.list (items ++ [value]))⟩
  | .field fields name :: frames, .comma => some ⟨frames, .name (fields ++ [(name, value)])⟩
  | .field fields name :: frames, .closeObject =>
    some ⟨frames, .behind (.object (fields ++ [(name, value)]))⟩
  | _, _ => none

/-- The reader behind one more token. -/
def step? (reader : Reader) (token : Token) : Option Reader :=
  match reader.place, token with
  | .value, token => begin? reader.frames token
  | .firstItem, .closeList => some ⟨reader.frames, .behind (.list [])⟩
  | .firstItem, token => begin? (.list [] :: reader.frames) token
  | .firstName, .closeObject => some ⟨reader.frames, .behind (.object [])⟩
  | .firstName, .text name => some ⟨reader.frames, .colon [] name⟩
  | .name fields, .text name => some ⟨reader.frames, .colon fields name⟩
  | .colon fields name, .colon => some ⟨.field fields name :: reader.frames, .value⟩
  | .behind value, token => follow? value reader.frames token
  | _, _ => none

/-- The reader behind a row of tokens. -/
def run? (reader : Reader) (ts : List Token) : Option Reader := ts.foldlM step? reader

theorem run?_append (reader : Reader) (ts ts' : List Token) :
    reader.run? (ts ++ ts') = (reader.run? ts).bind fun next => next.run? ts' :=
  List.foldlM_append

/-- The value at the end of the tokens, unless something is open. -/
def finish? (reader : Reader) : Option Json :=
  match reader.frames, reader.place with
  | [], .behind value => some value
  | _, _ => none

end Reader

/-- The value of a row of tokens. -/
def ofTokens? (ts : List Token) : Option Json :=
  ((Reader.mk [] .value).run? ts).bind Reader.finish?

/-- The value of a JSON text without numbers. -/
def read? (t : Text) : Option Json := (tokens? t).bind ofTokens?

/-! ## Values -/

open Reader

variable {frames : List Frame}

/-- Behind the opening of a list a value is read as its first item. -/
theorem run_firstItem (item : Json) (tss : List (List Token)) (ts : List Token) :
    (Reader.mk frames .firstItem).run? (List.intercalate [.comma] (tokens item :: tss) ++ ts)
      = (Reader.mk (.list [] :: frames) .value).run?
        (List.intercalate [.comma] (tokens item :: tss) ++ ts) := by
  have hfirst (ts : List Token) : (Reader.mk frames .firstItem).run? (tokens item ++ ts)
      = (Reader.mk (.list [] :: frames) .value).run? (tokens item ++ ts) := by
    cases item <;> rfl
  cases tss with
  | nil =>
    rw [List.intercalate_singleton]
    exact hfirst ts
  | cons next tss =>
    rw [List.intercalate_cons_cons, List.append_assoc, List.append_assoc]
    exact hfirst _

/-- Behind the opening of an object a name is read as its first one. -/
theorem run_firstName (name : Text) (value : Json) (tss : List (List Token)) (ts : List Token) :
    (Reader.mk frames .firstName).run?
        (List.intercalate [.comma] ((.text name :: .colon :: tokens value) :: tss) ++ ts)
      = (Reader.mk frames (.name [])).run?
        (List.intercalate [.comma] ((.text name :: .colon :: tokens value) :: tss) ++ ts) := by
  cases tss <;> rfl

mutual

/-- **The tokens of a value are read as the value**, and what is open stays open. -/
theorem run_tokens (frames : List Frame) : ∀ value : Json,
    (Reader.mk frames .value).run? (tokens value) = some ⟨frames, .behind value⟩
  | .null => rfl
  | .bool _ => rfl
  | .text _ => rfl
  | .list [] => rfl
  | .list (item :: rest) => (run_firstItem item _ _).trans (run_itemTokens frames [] item rest)
  | .object [] => rfl
  | .object ((name, value) :: rest) =>
    (run_firstName name value _ _).trans (run_fieldTokens frames [] name value rest)
termination_by value => sizeOf value

/-- The tokens of items are read as these items, behind others. -/
theorem run_itemTokens (frames : List Frame) (items : List Json) (item : Json) (rest : List Json) :
    (Reader.mk (.list items :: frames) .value).run?
      (List.intercalate [.comma] (itemTokens (item :: rest)) ++ [.closeList])
        = some ⟨frames, .behind (.list (items ++ item :: rest))⟩ :=
  have hitem := run_tokens (.list items :: frames) item
  match rest with
  | [] => by
    rw [itemTokens, itemTokens, List.intercalate_singleton, run?_append, hitem]
    rfl
  | next :: rest => by
    have hnext := run_itemTokens frames (items ++ [item]) next rest
    rw [List.append_assoc] at hnext
    rw [itemTokens, itemTokens, List.intercalate_cons_cons, List.append_assoc, List.append_assoc,
      run?_append, hitem]
    exact hnext
termination_by sizeOf (item :: rest)

/-- The tokens of fields are read as these fields, behind others. -/
theorem run_fieldTokens (frames : List Frame) (fields : List (Text × Json)) (name : Text)
    (value : Json) (rest : List (Text × Json)) :
    (Reader.mk frames (.name fields)).run?
      (List.intercalate [.comma] (fieldTokens ((name, value) :: rest)) ++ [.closeObject])
        = some ⟨frames, .behind (.object (fields ++ (name, value) :: rest))⟩ :=
  have hvalue := run_tokens (.field fields name :: frames) value
  have hfield : (Reader.mk frames (.name fields)).run? (.text name :: .colon :: tokens value)
      = some ⟨.field fields name :: frames, .behind value⟩ := hvalue
  match rest with
  | [] => by
    rw [fieldTokens, fieldTokens, List.intercalate_singleton, run?_append, hfield]
    rfl
  | (name', value') :: rest => by
    have hnext := run_fieldTokens frames (fields ++ [(name, value)]) name' value' rest
    rw [List.append_assoc] at hnext
    rw [fieldTokens, fieldTokens, List.intercalate_cons_cons, List.append_assoc,
      List.append_assoc, run?_append, hfield]
    exact hnext
termination_by sizeOf ((name, value) :: rest)

end

/-- **A written value is read back.** -/
theorem read?_render (value : Json) : read? (render value) = some value := by
  rw [read?, render, tokens?_of_scans (scans_renderAt 0 value), Option.bind_some, ofTokens?,
    run_tokens]
  rfl

/-- Other spellings are read as well. -/
example : read? "[\"\\ud83d\\ude00\", null]".toList = some (.list [.text "😀".toList, .null]) := by
  cbv

end KernelIsa.Json
