import KernelIsa.Bench.Rehearsal
import KernelIsa.Build.Pass
import KernelIsa.Proofs.Json.Reading
import KernelIsa.Proofs.Text.WellFormed

/-!
# Proofs/Artifact/DocumentReading — the session document tells sources and records

A document is read field by field, by the names of the fields (`Document.read?`).  Each part of it
is written by a function that either gives what is read back as the same thing or has a fault, and
it has the fault for paths that are no texts only (`Document.Writes`).  This passes from paths to
entries and to lists (`Document.Writes.mapM`).  So the document is there if all paths are texts, it
is read back as the sources and the records, and without it the pass does nothing
(`Document.tells_session`).
-/

namespace KernelIsa

/-- The path is spelled by a text. -/
def Path.IsText (p : Path) : Prop := ∃ t, ofText t = p

namespace Document

/-! ## Reading -/

/-- The field of a name. -/
def field? (name : String) : Json → Option Json
  | .object fields => fields.lookup name.toList
  | _ => none

def text? : Json → Option Text
  | .text t => some t
  | _ => none

def flag? : Json → Option Bool
  | .bool b => some b
  | _ => none

def items? : Json → Option (List Json)
  | .list items => some items
  | _ => none

/-- What may be absent is written as `null` then. -/
def optional? {α : Type} (read? : Json → Option α) : Json → Option (Option α)
  | .null => some none
  | value => (read? value).map some

def pathOf? (value : Json) : Option Path := (text? value).map Path.ofText

/-- An entry of the session. -/
def recordOf? (value : Json) : Option (RecordKey × Record) := do
  let device ← (field? "device" value).bind text?
  let kernel ← (field? "kernel" value).bind (optional? text?)
  let binary ← (field? "bin_file" value).bind (optional? pathOf?)
  let listing ← (field? "isa_file" value).bind (optional? pathOf?)
  let binaryIsTemporary ← (field? "is_bin_temp" value).bind flag?
  let listingIsTemporary ← (field? "is_isa_temp" value).bind flag?
  let success ← (field? "success" value).bind flag?
  return (⟨device, kernel⟩, ⟨binary, listing, binaryIsTemporary, listingIsTemporary, success⟩)

/-- The sources and the entries of a document. -/
def value? (value : Json) : Option (List Path × List (RecordKey × Record)) := do
  let sources ← (field? "sources" value).bind items?
  let outputs ← (field? "outputs" value).bind items?
  return (← sources.mapM pathOf?, ← outputs.mapM recordOf?)

/-- The sources and the entries that the text of a document tells. -/
def read? (text : Text) : Option (List Path × List (RecordKey × Record)) :=
  (Json.read? text).bind value?

/-! ## The parts of a document -/

/-- A writer gives what is read back as the same thing, and has a fault for anything that is not
good. -/
structure Writes {α : Type} (write : α → Except Fault Json) (read? : Json → Option α)
    (Good : α → Prop) : Prop where
  reads_back : ∀ a, Good a → ∃ value, write a = .ok value ∧ read? value = some a
  faults : ∀ a, ¬ Good a → write a = .error pathFault

theorem writes_path : Writes path pathOf? Path.IsText where
  reads_back := by
    rintro _ ⟨t, rfl⟩
    refine ⟨.text t, ?_, rfl⟩
    rw [path, Path.ofText, Utf8.decode?_eq_some_iff.mpr rfl]
  faults := by
    intro p hp
    have hdecode : Utf8.decode? p.bytes = none :=
      Option.eq_none_iff_forall_ne_some.mpr fun t ht =>
        hp ⟨t, congrArg Path.mk (Utf8.decode?_eq_some_iff.mp ht)⟩
    rw [path, hdecode]

theorem writes_path? :
    Writes path? (optional? pathOf?) fun file => ∀ p ∈ file, Path.IsText p where
  reads_back := by
    rintro (_ | p) h
    · exact ⟨.null, rfl, rfl⟩
    · obtain ⟨value, hwrite, hread⟩ := writes_path.reads_back p (h p rfl)
      refine ⟨value, hwrite, ?_⟩
      cases value with
      | text => exact congrArg (Option.map some) hread
      | _ => cases hread
  faults := by
    rintro (_ | p) h
    · exact absurd (fun p hp => by cases hp) h
    · exact writes_path.faults p fun hp => h fun q hq => Option.some.inj hq ▸ hp

/-- The paths that a record tells. -/
def paths (record : Record) : List Path := record.binary.toList ++ record.listing.toList

theorem forall_mem_paths_iff {record : Record} {P : Path → Prop} :
    (∀ p ∈ paths record, P p) ↔ (∀ p ∈ record.binary, P p) ∧ ∀ p ∈ record.listing, P p := by
  simp only [paths, List.forall_mem_append, Option.mem_toList, Option.mem_def]

theorem writes_entry : Writes entry recordOf? fun e => ∀ p ∈ paths e.2, Path.IsText p where
  reads_back := by
    rintro ⟨⟨device, kernel⟩, record⟩ h
    obtain ⟨hbinary, hlisting⟩ := forall_mem_paths_iff.mp h
    obtain ⟨binary, hbinary, hread⟩ := writes_path?.reads_back _ hbinary
    obtain ⟨listing, hlisting, hread'⟩ := writes_path?.reads_back _ hlisting
    have hkernel : optional? text? ((kernel.map Json.text).getD .null) = some kernel := by
      cases kernel <;> rfl
    refine ⟨_, by rw [entry, hbinary, hlisting]; rfl, ?_⟩
    simp [recordOf?, field?, List.lookup_cons, text?, flag?, hread, hread', hkernel]
  faults := by
    intro e h
    rw [entry]
    by_cases hbinary : ∀ p ∈ e.2.binary, Path.IsText p
    · obtain ⟨binary, hwrite, -⟩ := writes_path?.reads_back _ hbinary
      have hlisting := writes_path?.faults e.2.listing fun hlisting =>
        h (forall_mem_paths_iff.mpr ⟨hbinary, hlisting⟩)
      rw [hwrite, hlisting]
      rfl
    · rw [writes_path?.faults _ hbinary]
      rfl

/-- **Lists are written and read back item by item**, and one bad item is a fault. -/
theorem Writes.mapM {α : Type} {write : α → Except Fault Json} {read? : Json → Option α}
    {Good : α → Prop} (h : Writes write read? Good) (as : List α) :
    ((∀ a ∈ as, Good a) → ∃ values, as.mapM write = .ok values ∧ values.mapM read? = some as) ∧
    ((∃ a ∈ as, ¬ Good a) → as.mapM write = .error pathFault) := by
  induction as with
  | nil => exact ⟨fun _ => ⟨[], rfl, rfl⟩, fun h => absurd h (by simp)⟩
  | cons a as ih =>
    rw [List.mapM_cons]
    by_cases ha : Good a
    · obtain ⟨value, hwrite, hread⟩ := h.reads_back a ha
      rw [hwrite]
      constructor
      · intro hgood
        obtain ⟨values, hwrites, hreads⟩ := ih.1 (List.forall_mem_cons.mp hgood).2
        refine ⟨value :: values, by rw [hwrites]; rfl, ?_⟩
        rw [List.mapM_cons, hread, hreads]
        rfl
      · rintro ⟨a', ha', hbad⟩
        obtain rfl | ha' := List.mem_cons.mp ha'
        · exact absurd ha hbad
        · rw [ih.2 ⟨a', ha', hbad⟩]
          rfl
    · rw [h.faults a ha]
      exact ⟨fun hgood => absurd (hgood a List.mem_cons_self) ha, fun _ => rfl⟩

/-! ## The document -/

variable {sources : List Path} {session : Session}

/-- The paths that a document tells: those of the sources and of the records. -/
def told (sources : List Path) (session : Session) : List Path :=
  sources ++ session.records.entries.flatMap fun e => paths e.2

theorem forall_mem_told_iff {P : Path → Prop} : (∀ p ∈ told sources session, P p) ↔
    (∀ p ∈ sources, P p) ∧ ∀ e ∈ session.records.entries, ∀ p ∈ paths e.2, P p := by
  rw [told, List.forall_mem_append, List.forall_mem_flatMap]

/-- **A document of texts is written**, and it is read back as the sources and the records. -/
theorem write_of_texts (h : ∀ p ∈ told sources session, p.IsText) :
    ∃ text, write sources session = .ok text ∧
      read? text = some (sources, session.records.entries) := by
  obtain ⟨hsources, hentries⟩ := forall_mem_told_iff.mp h
  obtain ⟨sourceValues, hsources, hread⟩ := (writes_path.mapM sources).1 hsources
  obtain ⟨entryValues, hentries, hread'⟩ := (writes_entry.mapM session.records.entries).1 hentries
  refine ⟨_, by rw [write, value, hsources, hentries]; rfl, ?_⟩
  rw [read?, Json.read?_render, Option.bind_some]
  simp [value?, field?, List.lookup_cons, items?, hread, hread']

/-- **A path that is no text leaves no document.** -/
theorem write_of_not_text (h : ∃ p ∈ told sources session, ¬ p.IsText) :
    write sources session = .error pathFault := by
  rw [write, value]
  by_cases hsources : ∀ p ∈ sources, p.IsText
  · obtain ⟨values, hwrite, -⟩ := (writes_path.mapM sources).1 hsources
    have hentries : ∃ e ∈ session.records.entries, ¬ ∀ p ∈ paths e.2, p.IsText := by
      obtain ⟨p, hp, htext⟩ := h
      by_contra! hentries
      exact htext (forall_mem_told_iff.mpr ⟨hsources, hentries⟩ p hp)
    rw [hwrite, (writes_entry.mapM session.records.entries).2 hentries]
    rfl
  · push Not at hsources
    rw [(writes_path.mapM sources).2 hsources]
    rfl

/-- A document that is written is read back. -/
theorem read?_of_write {text : Text} (h : write sources session = .ok text) :
    read? text = some (sources, session.records.entries) := by
  by_cases htexts : ∀ p ∈ told sources session, p.IsText
  · obtain ⟨text', hwrite, hread⟩ := write_of_texts htexts
    obtain rfl : text' = text := Except.ok.inj (hwrite.symm.trans h)
    exact hread
  · push Not at htexts
    cases (write_of_not_text htexts).symm.trans h

/-! ## The pass -/

variable {m : Type → Type} [Monad m] [LawfulMonad m]

/-- The pass writes the document, or fails before it does anything. -/
theorem run_document (host : Host m) (services : Services m) (request : Request)
    (session : Session) : Pass.document.run host services request session =
      match request.outputs.session with
      | none => pure ()
      | some path => match write request.sources session with
        | .ok text => Step.ask (host.files.writeText path text)
        | .error fault => throw fault := by
  rw [Pass.run]
  cases request.outputs.session with
  | none => rfl
  | some path =>
    cases write request.sources session with
    | ok text => exact pure_bind (m := Checked m) _ _
    | error fault => exact pure_bind (m := Checked m) _ _

/-- **The session document tells the sources and the records**: it is there if all their paths are
texts, it is read back as them, and otherwise nothing is written. -/
theorem tells_session (host : Host m) (services : Services m) (request : Request)
    (session : Session) :
    ((∀ p ∈ told request.sources session, p.IsText) →
      ∃ text, write request.sources session = .ok text ∧
        read? text = some (request.sources, session.records.entries)) ∧
    (∀ (request' : Request) (session' : Session) (text : Text),
      write request.sources session = .ok text → write request'.sources session' = .ok text →
        request.sources = request'.sources ∧ session.records = session'.records) ∧
    ((∃ p ∈ told request.sources session, ¬ p.IsText) →
      write request.sources session = .error pathFault ∧
        Pass.document.run host services request session =
          if request.outputs.session.isSome then throw pathFault else pure ()) := by
  refine ⟨write_of_texts, fun request' session' text h h' => ?_, fun h => ?_⟩
  · have hread := (read?_of_write h).symm.trans (read?_of_write h')
    obtain ⟨hsources, hentries⟩ := Prod.mk.inj (Option.some.inj hread)
    exact ⟨hsources, (Keyed.mk.injEq ..).mpr hentries⟩
  · have hfault := write_of_not_text h
    refine ⟨hfault, ?_⟩
    rw [run_document, hfault]
    cases request.outputs.session <;> rfl

/-- A request for the session document, with quotes in the name of its source. -/
def documentRequest : Request where
  sources := [.ofText "a \"b\".cl".toList]
  outputs := { session := some (.ofText "run.json".toList) }

/-- The session of a device with a kernel that has some listing. -/
def kernelSession (listing : Path) : Session :=
  (Session.insert {} ⟨"gfx906".toList, none⟩ (.ofBinary ⟨.ofText "a\n.bin".toList, false⟩)).insert
    ⟨"gfx906".toList, some "é".toList⟩ (.ofListing ⟨listing, true⟩)

theorem tells_session_kernelSession :
    (∃ text, write documentRequest.sources (kernelSession (.ofText "é.isa".toList)) = .ok text ∧
      read? text = some (documentRequest.sources,
        (kernelSession (.ofText "é.isa".toList)).records.entries) ∧
      write documentRequest.sources (kernelSession (.ofText "e.isa".toList)) ≠ .ok text) ∧
    (∃ p ∈ told documentRequest.sources (kernelSession ⟨[0xFF]⟩), ¬ p.IsText) ∧
    Pass.document.run World.host ({} : Rehearsal).services documentRequest (kernelSession ⟨[0xFF]⟩)
      = throw pathFault := by
  have htexts : ∀ p ∈ told documentRequest.sources (kernelSession (.ofText "é.isa".toList)),
      p.IsText := by
    intro p hp
    have hp : p ∈ [Path.ofText "a \"b\".cl".toList, .ofText "a\n.bin".toList,
      .ofText "é.isa".toList] := hp
    simp only [List.mem_cons, List.not_mem_nil, or_false] at hp
    rcases hp with rfl | rfl | rfl
    · exact ⟨_, rfl⟩
    · exact ⟨_, rfl⟩
    · exact ⟨_, rfl⟩
  have hbad : ¬ (⟨[0xFF]⟩ : Path).IsText := by
    rintro ⟨t, ht⟩
    cases (Utf8.decode?_eq_some_iff.mpr (congrArg Path.bytes ht)).symm.trans (rfl : _ = none)
  have htold : ∃ p ∈ told documentRequest.sources (kernelSession ⟨[0xFF]⟩), ¬ p.IsText :=
    ⟨_, by decide, hbad⟩
  have htells := tells_session World.host ({} : Rehearsal).services documentRequest
  obtain ⟨text, hwrite, hread⟩ := (htells (kernelSession (.ofText "é.isa".toList))).1 htexts
  refine ⟨⟨text, hwrite, hread, fun hother => ?_⟩, htold, ((htells _).2.2 htold).2⟩
  have hrecords := ((htells _).2.1 documentRequest _ text hwrite hother).2
  exact absurd (congrArg Keyed.entries hrecords) (by decide)

end Document

end KernelIsa
