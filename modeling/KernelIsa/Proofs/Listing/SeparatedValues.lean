import KernelIsa.Listing.Row
import KernelIsa.Proofs.Text.Lines

/-!
# Proofs/Listing/SeparatedValues — a table is read back as it was written

`SeparatedValues.read?` reads a text of comma-separated values character by character: a line feed
outside quotes ends a record, a comma outside quotes ends a field, and in a field that opens with a
quote two quotes stand for one.  The `Reader` keeps what it has read so far, so that a written field
(`run_writeField`), a written record (`run_record`) and a written table (`run_records`) are passed
one behind the other.  A field is written in quotes exactly if one of its characters would end it or
open a quote, and the table of a fragment is read back row by row (`Row.read?_table`).
-/

namespace KernelIsa

namespace SeparatedValues

variable {field w t : Text} {fields : List Text} {records : List (List Text)}

/-! ## The reader -/

/-- Where a reader stands in a field. -/
inductive Place
  /-- In front of the first character. -/
  | opening
  /-- Behind a character of a field without quotes. -/
  | plain
  /-- Between the quotes. -/
  | quoted
  /-- Behind a quote that ends the field, unless it is the first of two. -/
  | closing
  deriving DecidableEq, Repr

/-- What is read of a text: whole records, whole fields of the next record, and the characters of
the next field. -/
structure Reader where
  records : List (List Text)
  fields : List Text
  field : Text
  place : Place
  deriving DecidableEq, Repr

namespace Reader

/-- Nothing is read. -/
def start : Reader := ⟨[], [], [], .opening⟩

/-- The reader behind one more character of its field. -/
def push (reader : Reader) (c : Char) (place : Place) : Reader :=
  ⟨reader.records, reader.fields, reader.field ++ [c], place⟩

/-- The reader at the same characters, at another place among the quotes. -/
def enter (reader : Reader) (place : Place) : Reader := { reader with place }

/-- The reader behind the end of its field. -/
def endField (reader : Reader) : Reader :=
  ⟨reader.records, reader.fields ++ [reader.field], [], .opening⟩

/-- The reader behind the end of its record. -/
def endRecord (reader : Reader) : Reader :=
  ⟨reader.records ++ [reader.fields ++ [reader.field]], [], [], .opening⟩

/-- The reader behind one more character.  No quote stands inside a field without quotes, and
nothing but a separator behind the closing quote. -/
def step? (reader : Reader) (c : Char) : Option Reader :=
  match reader.place with
  | .quoted => some (if c = '"' then reader.enter .closing else reader.push c .quoted)
  | place =>
    if c = ',' then some reader.endField
    else if c = '\n' then some reader.endRecord
    else match place with
      | .opening => some (if c = '"' then reader.enter .quoted else reader.push c .plain)
      | .plain => if c = '"' then none else some (reader.push c .plain)
      | _ => if c = '"' then some (reader.push c .quoted) else none

/-- The records at the end of the text; the last one needs no line feed, and every quote is
closed. -/
def finish? (reader : Reader) : Option (List (List Text)) :=
  match reader.place with
  | .quoted => none
  | .opening => some (if reader.fields.isEmpty then reader.records else reader.endRecord.records)
  | _ => some reader.endRecord.records

/-- The reader behind a text. -/
def run? (reader : Reader) (t : Text) : Option Reader := t.foldlM step? reader

theorem run?_append (reader : Reader) (s t : Text) :
    reader.run? (s ++ t) = (reader.run? s).bind fun next => next.run? t :=
  List.foldlM_append

theorem run?_cons (reader : Reader) (c : Char) (t : Text) :
    reader.run? (c :: t) = (reader.step? c).bind fun next => next.run? t :=
  List.foldlM_cons

end Reader

open Reader

/-- The records of a text of comma-separated values, if it is one. -/
def read? (t : Text) : Option (List (List Text)) := (start.run? t).bind finish?

/-! ## Fields -/

/-- **Doubled quotes are read as the field they were doubled in.** -/
theorem run_doubleQuotes :
    (Reader.mk records fields w .quoted).run? (Row.doubleQuotes field)
      = some ⟨records, fields, w ++ field, .quoted⟩ := by
  induction field generalizing w with
  | nil => rw [List.append_nil]; rfl
  | cons c field ih =>
    have hnext : (Reader.mk records fields (w ++ [c]) .quoted).run? (Row.doubleQuotes field)
        = some ⟨records, fields, w ++ c :: field, .quoted⟩ := by
      rw [ih, List.append_assoc, List.singleton_append]
    rw [Row.doubleQuotes]
    split
    · next hc =>
      rw [hc] at hnext ⊢
      exact hnext
    · next hc =>
      rw [run?_cons, step?]
      simp only [if_neg hc]
      exact hnext

/-- A field without a separator and without a quote is read as it stands. -/
theorem run_plain (records : List (List Text)) (fields : List Text) (w : Text)
    (h : Row.needsQuotes field = false) :
    ∀ place ∈ [Place.opening, .plain], ∃ place' ∈ [Place.opening, .plain],
      (Reader.mk records fields w place).run? field = some ⟨records, fields, w ++ field, place'⟩ := by
  induction field generalizing w with
  | nil => exact fun place hplace => ⟨place, hplace, by rw [List.append_nil]; rfl⟩
  | cons c field ih =>
    intro place hplace
    rw [Row.needsQuotes, List.any_cons, Bool.or_eq_false_iff] at h
    have hc : c ≠ ',' ∧ c ≠ '"' ∧ c ≠ '\n' := by simpa [and_assoc] using h.1
    have hstep : (Reader.mk records fields w place).step? c
        = some ⟨records, fields, w ++ [c], .plain⟩ := by
      rcases List.mem_pair.mp hplace with rfl | rfl
      · simp [step?, hc, push]
      · simp [step?, hc, push]
    obtain ⟨place', hplace', hrun⟩ := ih (w ++ [c]) h.2 .plain (by decide)
    refine ⟨place', hplace', ?_⟩
    rw [run?_cons, hstep, Option.bind_some, hrun, List.append_assoc, List.singleton_append]

/-- **A written field is read back**; the reader then stands where the field may end. -/
theorem run_writeField (records : List (List Text)) (fields : List Text) (field : Text) :
    ∃ place ≠ Place.quoted,
      (Reader.mk records fields [] .opening).run? (Row.writeField field)
        = some ⟨records, fields, field, place⟩ := by
  rw [Row.writeField]
  split
  · have hopen : (Reader.mk records fields [] .opening).step? '"'
        = some ⟨records, fields, [], .quoted⟩ := rfl
    refine ⟨.closing, by decide, ?_⟩
    rw [List.cons_append, run?_cons, hopen, Option.bind_some, run?_append, run_doubleQuotes]
    rfl
  · next hquotes =>
    obtain ⟨place, hplace, hrun⟩ := run_plain records fields [] (by simpa using hquotes) .opening
      (by decide)
    refine ⟨place, ?_, hrun⟩
    rintro rfl
    exact absurd hplace (by decide)

theorem step?_comma {reader : Reader} (h : reader.place ≠ .quoted) :
    reader.step? ',' = some reader.endField := by
  obtain ⟨records, fields, field, place⟩ := reader
  cases place with
  | quoted => exact absurd rfl h
  | opening | plain | closing => rfl

theorem step?_lineFeed {reader : Reader} (h : reader.place ≠ .quoted) :
    reader.step? '\n' = some reader.endRecord := by
  obtain ⟨records, fields, field, place⟩ := reader
  cases place with
  | quoted => exact absurd rfl h
  | opening | plain | closing => rfl

/-! ## Records -/

/-- A record as it is written, without the line end. -/
def writeRecord (record : List Text) : Text :=
  List.intercalate [','] (record.map Row.writeField)

/-- **A written record is read back.** -/
theorem run_record {record : List Text} (h : record ≠ []) (fields : List Text) (t : Text) :
    (Reader.mk records fields [] .opening).run? (writeRecord record ++ '\n' :: t)
      = (Reader.mk (records ++ [fields ++ record]) [] [] .opening).run? t := by
  induction record generalizing fields with
  | nil => exact absurd rfl h
  | cons field record ih =>
    obtain ⟨place, hplace, hfield⟩ := run_writeField records fields field
    cases record with
    | nil =>
      have hwrite : writeRecord [field] = Row.writeField field := List.intercalate_singleton
      rw [hwrite, run?_append, hfield, Option.bind_some, run?_cons, step?_lineFeed hplace]
      rfl
    | cons next record =>
      have hwrite : writeRecord (field :: next :: record)
          = Row.writeField field ++ ',' :: writeRecord (next :: record) := by
        rw [writeRecord, List.map_cons, List.map_cons, List.intercalate_cons_cons,
          List.append_assoc]
        rfl
      rw [hwrite, List.append_assoc, List.cons_append, run?_append, hfield, Option.bind_some,
        run?_cons, step?_comma hplace, Option.bind_some]
      refine (ih (by simp) (fields ++ [field])).trans ?_
      rw [List.append_assoc, List.singleton_append]

/-- Written records are read one behind the other. -/
theorem run_records {written : List (List Text)} (h : ∀ record ∈ written, record ≠ []) :
    (Reader.mk records [] [] .opening).run? (Text.ofLines (written.map writeRecord))
      = some ⟨records ++ written, [], [], .opening⟩ := by
  induction written generalizing records with
  | nil => rw [List.append_nil]; rfl
  | cons record written ih =>
    obtain ⟨hrecord, hwritten⟩ := List.forall_mem_cons.mp h
    rw [List.map_cons, Text.ofLines_cons, run_record hrecord, ih hwritten, List.nil_append,
      List.append_assoc, List.singleton_append]

/-- **Records written are read back**, whatever the characters in their fields. -/
theorem read?_ofLines (h : ∀ record ∈ records, record ≠ []) :
    read? (Text.ofLines (records.map writeRecord)) = some records := by
  rw [read?, start, run_records h]
  rfl

/-- A quote inside a field and a record that goes on behind a line feed in quotes. -/
example : read? "a,\"b\"\"\n\"\nc".toList = some [["a".toList, "b\"\n".toList], ["c".toList]] := by
  decide

end SeparatedValues

/-! ## The table of a fragment -/

namespace Row

/-- The names of the columns, one by one. -/
def columnNames : List Text :=
  ["Address".toList, "Opcode".toList, "Operands".toList, "Encoding".toList]

/-- **The table of a fragment is read back without loss**: behind the names of the columns there is
one record of four fields for each line of the body that has a row, in order. -/
theorem read?_table (fragment : Text) : SeparatedValues.read? (table fragment)
    = some (columnNames :: ((Text.lines (Fragment.body fragment)).filterMap ofLine?).map
        fun row => [row.address, row.opcode, row.operands, row.encoding]) := by
  have hcolumns : columns = SeparatedValues.writeRecord columnNames := by decide
  have htable : table fragment
      = Text.ofLines ((columnNames :: (ofFragment fragment).map fields).map
        SeparatedValues.writeRecord) := by
    rw [table, hcolumns, List.map_cons, List.map_map]
    rfl
  rw [htable, SeparatedValues.read?_ofLines]
  · rfl
  · intro record hrecord
    rcases List.mem_cons.mp hrecord with rfl | hrow
    · decide
    · obtain ⟨row, -, rfl⟩ := List.mem_map.mp hrow
      exact List.cons_ne_nil _ _

end Row

end KernelIsa
