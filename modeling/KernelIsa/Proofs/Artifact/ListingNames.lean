import KernelIsa.Artifact.Name
import Mathlib.Logic.Function.Basic

/-!
# Proofs/Artifact/ListingNames — every kernel of a device has a listing of its own

The name of a listing is the device's part of it with an ending that tells the kernel
(`hyphenated_kernelPart`).  Endings of different kernels differ, and joining names to a directory
keeps them apart, so the listings of different kernels have different paths
(`Workspace.listing_injective`).
-/

namespace KernelIsa

/-! ## Bytes -/

theorem Utf8.encode_injective : Function.Injective Utf8.encode := by
  intro t t' h
  have hbytes : t.utf8Encode = t'.utf8Encode := congrArg List.toByteArray h
  have hdecoded := congrArg ByteArray.utf8Decode? hbytes
  rw [List.utf8Decode?_utf8Encode, List.utf8Decode?_utf8Encode] at hdecoded
  exact congrArg Array.toList (Option.some.inj hdecoded)

theorem Utf8.encode_append (t t' : Text) : Utf8.encode (t ++ t') = Utf8.encode t ++ Utf8.encode t' :=
  List.flatMap_append

/-! ## Joining -/

namespace Path

variable {p q q' : Path}

theorem isAbsolute_iff : p.isAbsolute ↔ p.bytes.head? = some slash := by
  rw [isAbsolute, decide_eq_true_iff, lead]
  split
  · next h => exact iff_of_true rfl h
  · next h =>
    refine iff_of_false ?_ h
    split <;> exact Lead.noConfusion

/-- Paths are told apart behind a directory, unless only one of them starts at the root. -/
theorem join_inj (h : q.isAbsolute = q'.isAbsolute) (hjoin : p.join q = p.join q') : q = q' := by
  rw [join, join, h] at hjoin
  split at hjoin
  · exact hjoin
  · split at hjoin
    · exact congrArg mk (List.append_cancel_left (congrArg bytes hjoin))
    · have htail := List.append_cancel_left (congrArg bytes hjoin)
      exact congrArg mk (List.cons.inj htail).2

end Path

/-! ## Names -/

/-- What a kernel adds to the name of a device's file. -/
def kernelEnding (kernel extension : Text) : Text :=
  (if kernel.isEmpty then [] else '-' :: kernel) ++ '.' :: extension

theorem kernelEnding_injective (extension : Text) :
    Function.Injective fun kernel => kernelEnding kernel extension := by
  intro kernel kernel' h
  have hparts : (if kernel.isEmpty then [] else '-' :: kernel)
      = if kernel'.isEmpty then [] else '-' :: kernel' := List.append_cancel_right h
  cases kernel with
  | nil =>
    cases kernel' with
    | nil => rfl
    | cons => cases hparts
  | cons c kernel =>
    cases kernel' with
    | nil => cases hparts
    | cons => exact (List.cons.inj hparts).2

/-- An ending does not start with a slash. -/
theorem head?_encode_kernelEnding (kernel extension : Text) :
    (Utf8.encode (kernelEnding kernel extension)).head? ≠ some Path.slash := by
  cases kernel with
  | nil => exact fun h => absurd (Option.some.inj h) (by decide)
  | cons => exact fun h => absurd (Option.some.inj h) (by decide)

theorem hyphenated_cons (part next : Text) (parts : List Text) :
    hyphenated (part :: next :: parts) = part ++ '-' :: hyphenated (next :: parts) := by
  simp [hyphenated, List.intercalate]

/-- One more part stands behind a dash. -/
theorem hyphenated_concat (part : Text) (parts : List Text) (last : Text) :
    hyphenated (part :: parts ++ [last]) = hyphenated (part :: parts) ++ '-' :: last := by
  induction parts generalizing part with
  | nil =>
    rw [List.singleton_append, hyphenated_cons]
    simp [hyphenated, List.intercalate]
  | cons next parts ih =>
    rw [List.cons_append, List.cons_append, hyphenated_cons, hyphenated_cons, List.append_assoc,
      List.cons_append, ← ih, List.cons_append]

/-- A dashed name ends with the kernel. -/
theorem hyphenated_kernelPart (parts : List Text) (device kernel extension : Text) :
    hyphenated (parts ++ device :: kernelPart (some kernel)) ++ '.' :: extension
      = hyphenated (parts ++ [device]) ++ kernelEnding kernel extension := by
  have hpart : hyphenated (parts ++ device :: kernelPart (some kernel))
      = hyphenated (parts ++ [device]) ++ if kernel.isEmpty then [] else '-' :: kernel := by
    obtain ⟨part, rest, hcons⟩ := List.exists_cons_of_ne_nil
      (List.append_ne_nil_of_right_ne_nil parts (List.cons_ne_nil device []))
    cases kernel with
    | nil => exact (List.append_nil _).symm
    | cons c kernel =>
      have hassoc : parts ++ device :: kernelPart (some (c :: kernel))
          = (parts ++ [device]) ++ [c :: kernel] := by
        rw [List.append_assoc]
        rfl
      rw [hassoc, hcons]
      exact hyphenated_concat _ _ _
  rw [hpart, kernelEnding, List.append_assoc]

/-- **Paths that end with different kernels are different**, also behind a directory. -/
theorem join_kernelEnding_injective (directory : Path) (front extension : Text) :
    Function.Injective fun kernel =>
      directory.join (Path.ofText (front ++ kernelEnding kernel extension)) := by
  intro kernel kernel' h
  have hroot (kernel : Text) : (Path.ofText (front ++ kernelEnding kernel extension)).isAbsolute
      ↔ (Utf8.encode front).head? = some Path.slash := by
    have hending := head?_encode_kernelEnding kernel extension
    rw [Path.isAbsolute_iff, Path.ofText, Utf8.encode_append, List.head?_append]
    cases (Utf8.encode front).head? with
    | none => exact iff_of_false hending nofun
    | some b => rfl
  have hbytes := congrArg Path.bytes
    (Path.join_inj (Bool.eq_iff_iff.mpr ((hroot kernel).trans (hroot kernel').symm)) h)
  exact kernelEnding_injective extension (List.append_cancel_left (Utf8.encode_injective hbytes))

/-- **Different kernels of a device have different listings.** -/
theorem Workspace.listing_injective (workspace : Workspace) (base : Option Path) (device : Text) :
    Function.Injective fun kernel => (workspace.listing base device kernel).path := by
  have hempty (front extension : Text) : Function.Injective fun kernel =>
      Path.ofText (front ++ kernelEnding kernel extension) := fun kernel kernel' h =>
    kernelEnding_injective extension
      (List.append_cancel_left (Utf8.encode_injective (congrArg Path.bytes h)))
  intro kernel kernel' h
  cases base with
  | none =>
    have hname (kernel : Text) : (workspace.listing none device kernel).path
        = workspace.directory.join (Path.ofText (hyphenated [listingFamily, workspace.tag, device]
          ++ kernelEnding kernel "isa".toList)) :=
      congrArg (fun name => workspace.directory.join (Path.ofText name))
        (hyphenated_kernelPart [listingFamily, workspace.tag] device kernel _)
    exact join_kernelEnding_injective _ _ _ ((hname kernel).symm.trans (h.trans (hname kernel')))
  | some base =>
    simp only [listing, outputName] at h
    rw [hyphenated_kernelPart, hyphenated_kernelPart] at h
    split at h
    · split at h
      · exact hempty _ _ h
      · exact join_kernelEnding_injective _ _ _ h
    · exact hempty _ _ h

end KernelIsa
