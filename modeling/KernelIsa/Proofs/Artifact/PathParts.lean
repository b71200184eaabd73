import KernelIsa.Artifact.Path
import KernelIsa.Proofs.Artifact.ListingNames

/-!
# Proofs/Artifact/PathParts — the name behind a directory

A name without slashes that is neither empty nor made of one or two dots is `IsPlain`.  Joined to a
directory it is the last segment (`exists_segments_join`), hence the last component
(`components_join`) and the file name, and another extension replaces what stands behind its last
dot (`withExtension_join`).
-/

namespace KernelIsa.Path

variable {directory p : Path} {name stem extension bytes rest : Bytes}

/-! ## Plain names -/

/-- A name that is a component of its own. -/
structure IsPlain (name : Bytes) : Prop where
  slash_notMem : slash ∉ name
  not_idle : isIdle name = false
  ne_up : name ≠ [dot, dot]

theorem IsPlain.ne_nil (h : IsPlain name) : name ≠ [] := by
  rintro rfl
  cases h.not_idle

theorem IsPlain.head? (h : IsPlain name) : name.head? ≠ some slash :=
  fun hhead => h.slash_notMem (List.mem_of_head? hhead)

/-- A name with a dot behind its start is plain. -/
theorem isPlain_append (hne : stem ≠ []) (hdot : stem ≠ [dot]) (hstem : slash ∉ stem)
    (hextension : slash ∉ extension) : IsPlain (stem ++ dot :: extension) where
  slash_notMem := by
    rw [List.mem_append, List.mem_cons, not_or, not_or]
    exact ⟨hstem, by decide, hextension⟩
  not_idle := by
    obtain ⟨b, stem, rfl⟩ := List.exists_cons_of_ne_nil hne
    rw [isIdle, Bool.or_eq_false_iff]
    exact ⟨rfl, beq_eq_false_iff_ne.mpr fun h => by simpa using (List.cons.inj h).2⟩
  ne_up h := by
    obtain ⟨b, stem, rfl⟩ := List.exists_cons_of_ne_nil hne
    obtain ⟨rfl, h⟩ := List.cons.inj h
    cases stem with
    | nil => exact hdot rfl
    | cons c stem => simpa using (List.cons.inj h).2

theorem isPlain_of_fileName? (h : p.fileName? = some name) : IsPlain name := by
  rw [fileName?, Option.filter_eq_some_iff, dropIdleEnd, List.getLast?_reverse] at h
  obtain ⟨hhead, hup⟩ := h
  have hmem : name ∈ p.segments :=
    List.mem_reverse.mp ((List.dropWhile_suffix _).subset (List.mem_of_head? hhead))
  refine ⟨fun hslash => ?_, ?_, by simpa using hup⟩
  · exact pieces_pure _ _ name hmem slash hslash rfl
  · have hidle := List.head?_dropWhile_not isIdle p.segments.reverse
    rw [hhead] at hidle
    simpa using hidle

/-! ## Leads and segments -/

theorem isAbsolute_of_isPlain (h : IsPlain name) : isAbsolute ⟨name⟩ = false := by
  rw [← Bool.not_eq_true, isAbsolute_iff]
  exact h.head?

theorem lead_of_isPlain (h : IsPlain name) : lead ⟨name⟩ = .plain := by
  refine (if_neg h.head?).trans (if_neg fun hhere => ?_)
  obtain ⟨hdot, hrest⟩ := Bool.and_eq_true_iff.mp hhere
  obtain ⟨rest, rfl⟩ := List.head?_eq_some_iff.mp (of_decide_eq_true hdot)
  rcases Bool.or_eq_true_iff.mp hrest with hnil | hslash
  · obtain rfl : rest = [] := List.isEmpty_iff.mp hnil
    cases h.not_idle
  · exact h.slash_notMem (List.mem_cons_of_mem _ (List.mem_of_head? (of_decide_eq_true hslash)))

theorem pieces_of_slash_notMem {bytes : Bytes} (h : slash ∉ bytes) :
    pieces (· == slash) bytes = [bytes] :=
  pieces_of_forall_not fun _ hb heq => h (beq_iff_eq.mp heq ▸ hb)

theorem pieces_of_isPlain (h : IsPlain name) : pieces (· == slash) name = [name] :=
  pieces_of_slash_notMem h.slash_notMem

theorem segments_of_isPlain (h : IsPlain name) : segments ⟨name⟩ = [name] := by
  rw [segments, lead_of_isPlain h]
  exact pieces_of_isPlain h

/-- What stands behind a slash does not change how a path opens. -/
theorem lead_append (hne : bytes ≠ []) (rest : Bytes) :
    lead ⟨bytes ++ slash :: rest⟩ = lead ⟨bytes⟩ := by
  obtain ⟨b, bytes, rfl⟩ := List.exists_cons_of_ne_nil hne
  cases bytes with
  | nil => simp [lead]
  | cons c bytes => rfl

theorem isPrefix_lead (p : Path) : p.lead.bytes <+: p.bytes := by
  obtain ⟨bytes⟩ := p
  rw [lead]
  split
  · next h =>
    obtain ⟨rest, rfl⟩ := List.head?_eq_some_iff.mp h
    exact ⟨rest, rfl⟩
  · split
    · next h =>
      have hhead := of_decide_eq_true (Bool.and_eq_true_iff.mp h).1
      obtain ⟨rest, rfl⟩ := List.head?_eq_some_iff.mp hhead
      exact ⟨rest, rfl⟩
    · exact List.nil_prefix

/-- The lead and the segments make up the path. -/
theorem ofSegments_segments (p : Path) : ofSegments p.lead p.segments = p := by
  obtain ⟨rest, hrest⟩ := isPrefix_lead p
  rw [ofSegments, segments, joined_pieces, ← hrest, List.drop_left, hrest]

theorem segments_append (hne : bytes ≠ []) (rest : Bytes) :
    segments ⟨bytes ++ slash :: rest⟩ = segments ⟨bytes⟩ ++ pieces (· == slash) rest := by
  rw [segments, segments, lead_append hne, List.drop_append_of_le_length (isPrefix_lead ⟨bytes⟩).length_le]
  exact pieces_append_cons rfl _ _

/-! ## A name behind a directory -/

/-- The bytes in front of a name that is joined to a directory. -/
def front (directory : Path) : Bytes :=
  if directory.bytes.isEmpty || directory.bytes.getLast? = some slash then directory.bytes
  else directory.bytes ++ [slash]

theorem join_of_isPlain (h : IsPlain name) : directory.join ⟨name⟩ = ⟨directory.front ++ name⟩ := by
  rw [join, isAbsolute_of_isPlain h, front]
  simp only [Bool.false_eq_true, if_false]
  split
  · rfl
  · rw [List.append_assoc, List.singleton_append]

/-- The steps that a lead and segments stand for. -/
def stepsOf (opening : Lead) (segments : List Bytes) : List Component :=
  opening.components ++ (segments.filter fun s => !isIdle s).map Component.ofSegment

theorem components_eq (p : Path) : p.components = stepsOf p.lead p.segments := rfl

theorem stepsOf_concat (h : IsPlain name) (opening : Lead) (segments : List Bytes) :
    stepsOf opening (segments ++ [name]) = stepsOf opening segments ++ [.name name] := by
  have hname : [name].filter (fun s => !isIdle s) = [name] :=
    List.filter_cons_of_pos (by rw [h.not_idle]; rfl)
  rw [stepsOf, stepsOf, List.filter_append, hname, List.map_append, List.append_assoc]
  exact congrArg (fun step => _ ++ (_ ++ [step])) (if_neg h.ne_up)

/-- **A name joined to a directory is its last segment.** -/
theorem exists_segments_join (directory : Path) : ∃ opening segments,
    directory.components = stepsOf opening segments ∧ ∀ name, IsPlain name →
      (directory.join ⟨name⟩).lead = opening ∧
        (directory.join ⟨name⟩).segments = segments ++ [name] := by
  have hbehind (bytes : Bytes) (hne : bytes ≠ []) (name : Bytes) (hname : IsPlain name) :
      lead ⟨bytes ++ [slash] ++ name⟩ = lead ⟨bytes⟩ ∧
        segments ⟨bytes ++ [slash] ++ name⟩ = segments ⟨bytes⟩ ++ [name] := by
    rw [List.append_assoc, List.singleton_append]
    refine ⟨lead_append hne name, ?_⟩
    rw [segments_append hne, pieces_of_isPlain hname]
  obtain ⟨bytes⟩ := directory
  by_cases hnil : bytes = []
  · refine ⟨.plain, [], by rw [hnil]; rfl, fun name hname => ?_⟩
    rw [join_of_isPlain hname, hnil]
    exact ⟨lead_of_isPlain hname, segments_of_isPlain hname⟩
  · by_cases hlast : bytes.getLast? = some slash
    · obtain ⟨init, rfl⟩ := List.getLast?_eq_some_iff.mp hlast
      have hfront : front ⟨init ++ [slash]⟩ = init ++ [slash] :=
        if_pos (by simp)
      by_cases hinit : init = []
      · refine ⟨.root, [], by rw [hinit]; rfl, fun name hname => ?_⟩
        rw [join_of_isPlain hname, hfront, hinit]
        exact ⟨rfl, pieces_of_isPlain hname⟩
      · refine ⟨lead ⟨init⟩, segments ⟨init⟩, ?_, fun name hname => ?_⟩
        · have hidle : (pieces (· == slash) []).filter (fun s => !isIdle s) = [] := rfl
          rw [components_eq, lead_append hinit, segments_append hinit, stepsOf, stepsOf,
            List.filter_append, hidle, List.append_nil]
        · rw [join_of_isPlain hname, hfront]
          exact hbehind init hinit name hname
    · refine ⟨lead ⟨bytes⟩, segments ⟨bytes⟩, rfl, fun name hname => ?_⟩
      have hfront : front ⟨bytes⟩ = bytes ++ [slash] := if_neg (by simp [hnil, hlast])
      rw [join_of_isPlain hname, hfront]
      exact hbehind bytes hnil name hname

/-- **A name joined to a directory is its last component.** -/
theorem components_join (h : IsPlain name) :
    (directory.join ⟨name⟩).components = directory.components ++ [.name name] := by
  obtain ⟨opening, segments, hdirectory, hjoin⟩ := exists_segments_join directory
  rw [components_eq, (hjoin name h).1, (hjoin name h).2, stepsOf_concat h, hdirectory]

theorem dropIdleEnd_concat (h : IsPlain name) (segments : List Bytes) :
    dropIdleEnd (segments ++ [name]) = segments ++ [name] := by
  rw [dropIdleEnd, List.reverse_append, List.reverse_singleton, List.singleton_append,
    List.dropWhile_cons_of_neg (by rw [h.not_idle]; decide), List.reverse_cons, List.reverse_reverse]

theorem fileName?_join (h : IsPlain name) : (directory.join ⟨name⟩).fileName? = some name := by
  obtain ⟨opening, segments, -, hjoin⟩ := exists_segments_join directory
  rw [fileName?, (hjoin name h).2, dropIdleEnd_concat h, List.getLast?_concat]
  exact Option.filter_some_pos (decide_eq_true h.ne_up)

/-! ## Extensions -/

/-- **A name is cut at its last dot.** -/
theorem splitName_append (hne : stem ≠ []) (hextension : dot ∉ extension) :
    splitName (stem ++ dot :: extension) = (stem, some extension) := by
  have hopening : ((stem ++ dot :: extension).reverse.dropWhile (· ≠ dot)).reverse = stem ++ [dot] := by
    have hafter : ∀ b ∈ extension.reverse, decide (b ≠ dot) = true := fun b hb =>
      decide_eq_true fun heq => hextension (heq ▸ List.mem_reverse.mp hb)
    rw [List.reverse_append, List.reverse_cons, List.append_assoc,
      List.dropWhile_append_of_pos hafter, List.singleton_append,
      List.dropWhile_cons_of_neg (by simp), List.reverse_cons, List.reverse_reverse]
  have hlength : ¬ (stem ++ [dot]).length ≤ 1 := by
    have := List.length_pos_iff.mpr hne
    rw [List.length_append, List.length_singleton]
    omega
  have hcut : stem ++ dot :: extension = stem ++ [dot] ++ extension := by
    rw [List.append_assoc, List.singleton_append]
  simp only [splitName, hopening]
  rw [if_neg hlength, List.dropLast_concat, hcut, List.drop_left]

/-- A name has no extension, or is a stem, a dot and the extension. -/
theorem splitName_cases (name : Bytes) : splitName name = (name, none) ∨
    ∃ stem extension, stem ≠ [] ∧ dot ∉ extension ∧ name = stem ++ dot :: extension ∧
      splitName name = (stem, some extension) := by
  by_cases hdot : dot ∈ name.reverse
  · obtain ⟨after, before, hreverse, hafter⟩ := List.eq_append_cons_of_mem hdot
    have hname : name = before.reverse ++ dot :: after.reverse := by
      rw [← List.reverse_reverse name, hreverse]
      simp
    by_cases hstem : before = []
    · have hbehind : ∀ b ∈ after, decide (b ≠ dot) = true := fun b hb =>
        decide_eq_true fun heq => hafter (heq ▸ hb)
      have hopening : (name.reverse.dropWhile (· ≠ dot)).reverse = [dot] := by
        rw [hreverse, hstem, List.dropWhile_append_of_pos hbehind]
        rfl
      refine .inl ?_
      simp only [splitName, hopening]
      rfl
    · have hne : before.reverse ≠ [] := by simpa using hstem
      have hextension : dot ∉ after.reverse := by simpa using hafter
      exact .inr ⟨_, _, hne, hextension, hname, hname ▸ splitName_append hne hextension⟩
  · have hbehind : ∀ b ∈ name.reverse, decide (b ≠ dot) = true := fun b hb =>
      decide_eq_true fun heq => hdot (heq ▸ hb)
    have hopening : (name.reverse.dropWhile (· ≠ dot)).reverse = [] := by
      rw [← List.append_nil name.reverse, List.dropWhile_append_of_pos hbehind]
      rfl
    refine .inl ?_
    simp only [splitName, hopening]
    rfl

/-- **A new extension takes the place of what stands behind the last dot.** -/
theorem withExtension_join (hne : stem ≠ []) (hdot : stem ≠ [dot]) (hstem : slash ∉ stem)
    (hextension : dot ∉ extension ∧ slash ∉ extension) {new : Text}
    (hnew : slash ∉ Utf8.encode new) :
    (directory.join ⟨stem ++ dot :: extension⟩).withExtension new
      = directory.join ⟨stem ++ dot :: Utf8.encode new⟩ := by
  have hbefore := isPlain_append hne hdot hstem hextension.2
  have hbare : IsPlain (stem ++ [dot]) := isPlain_append hne hdot hstem List.not_mem_nil
  have hafter := isPlain_append hne hdot hstem hnew
  have hwithout : (directory.join ⟨stem ++ dot :: extension⟩).withoutExtension
      = directory.join ⟨stem ++ [dot]⟩ := by
    have hbytes : directory.front ++ (stem ++ dot :: extension)
        = directory.front ++ (stem ++ [dot]) ++ extension := by simp
    rw [withoutExtension, Path.extension?, fileName?_join hbefore, Option.bind_some,
      splitName_append hne hextension.1, join_of_isPlain hbefore, join_of_isPlain hbare]
    dsimp only
    rw [hbytes, List.length_append, Nat.add_sub_cancel, List.take_left]
  obtain ⟨opening, segments, -, hjoin⟩ := exists_segments_join directory
  dsimp only [withExtension]
  rw [hwithout, stem?, fileName?_join hbare, Option.map_some,
    splitName_append hne List.not_mem_nil]
  dsimp only
  rw [(hjoin _ hbare).1, (hjoin _ hbare).2, dropIdleEnd_concat hbare, List.dropLast_concat,
    ← (hjoin _ hafter).1, ← (hjoin _ hafter).2, ofSegments_segments]

end KernelIsa.Path
