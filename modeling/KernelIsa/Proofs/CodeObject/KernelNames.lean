import KernelIsa.Proofs.CodeObject.KernelSizes
import KernelIsa.Proofs.Text.Marks

/-!
# Proofs/CodeObject/KernelNames — which symbols of a code object are kernels

The names of the kernels and their sizes are read off two views of the symbols: the functions in
their order, and the names that descriptors describe, as a set (`kernelNames_congr`).  A symbol
that is no definition or has no name shows in neither view, and a descriptor only in the second one,
so that its place among the symbols does not matter.  In words of the symbols themselves
(`function?_eq_some_iff`, `mem_described_iff`) the two views say which symbols are kernels
(`kernelNames_eq_filterMap`).
-/

namespace KernelIsa.Symbol

variable {symbols symbols' : List Symbol} {s : Symbol} {f : Function} {name kernel : Text}

/-! ## Names defined by the symbols -/

/-- A symbol defines the given name. -/
def IsDefined (symbols : List Symbol) (name : Text) : Prop :=
  ∃ s ∈ symbols, s.isDefinition ∧ s.name = some name

instance (symbols : List Symbol) (name : Text) : Decidable (IsDefined symbols name) :=
  inferInstanceAs (Decidable (∃ s ∈ symbols, _))

/-- A symbol defines a name that ends as those of descriptors do. -/
def HasDescriptor (symbols : List Symbol) : Prop :=
  ∃ s ∈ symbols, s.isDefinition ∧ ∃ name ∈ s.name, descriptorEnding <:+ name

instance (symbols : List Symbol) : Decidable (HasDescriptor symbols) :=
  inferInstanceAs (Decidable (∃ s ∈ symbols, _))

/-- The symbol defines code under a name that is neither empty nor that of a descriptor. -/
def IsFunctionNamed (s : Symbol) (name : Text) : Prop :=
  s.isDefinition ∧ s.isFunction ∧ s.name = some name ∧ name ≠ [] ∧ ¬ descriptorEnding <:+ name

instance (s : Symbol) (name : Text) : Decidable (IsFunctionNamed s name) :=
  inferInstanceAs (Decidable (_ ∧ _))

theorem definedName?_eq_some_iff :
    s.definedName? = some name ↔ s.isDefinition ∧ s.name = some name ∧ name ≠ [] := by
  rw [definedName?, Option.filter_eq_some_iff, and_left_comm]
  simp [and_comm]

theorem described?_eq_some_iff :
    s.described? = some kernel ↔ s.isDefinition ∧ s.name = some (kernel ++ descriptorEnding) := by
  have hne : kernel ++ descriptorEnding ≠ [] := List.append_ne_nil_of_right_ne_nil _ (by decide)
  rw [described?, Option.bind_eq_some_iff]
  constructor
  · rintro ⟨name, hname, hending⟩
    obtain ⟨hdefinition, hname, -⟩ := definedName?_eq_some_iff.mp hname
    obtain rfl := Text.dropEnding?_eq_some_iff.mp hending
    exact ⟨hdefinition, hname⟩
  · rintro ⟨hdefinition, hname⟩
    exact ⟨_, definedName?_eq_some_iff.mpr ⟨hdefinition, hname, hne⟩,
      Text.dropEnding?_eq_some_iff.mpr rfl⟩

/-- **A function is a symbol that defines code under a name of its own.** -/
theorem function?_eq_some_iff : s.function? = some f ↔
    IsFunctionNamed s f.name ∧ f.size = s.size ∧ f.isGlobal = s.isGlobal := by
  have hending (h : s.definedName? = some f.name) :
      s.described? = none ↔ ¬ descriptorEnding <:+ f.name := by
    rw [described?, h, Option.bind_some, Text.dropEnding?_eq_none_iff]
  rw [function?]
  constructor
  · intro h
    split at h
    · next hcode =>
      obtain ⟨name, hname, rfl⟩ := Option.map_eq_some_iff.mp h
      obtain ⟨hfunction, hnone⟩ := Bool.and_eq_true_iff.mp hcode
      obtain ⟨hdefinition, hread, hne⟩ := definedName?_eq_some_iff.mp hname
      exact ⟨⟨hdefinition, hfunction, hread, hne,
        (hending hname).mp (Option.isNone_iff_eq_none.mp hnone)⟩, rfl, rfl⟩
    · cases h
  · rintro ⟨⟨hdefinition, hfunction, hread, hne, hnot⟩, hsize, hglobal⟩
    have hname := definedName?_eq_some_iff.mpr ⟨hdefinition, hread, hne⟩
    rw [hfunction, (hending hname).mpr hnot, hname, ← hsize, ← hglobal]
    rfl

theorem mem_described_iff :
    kernel ∈ described symbols ↔ IsDefined symbols (kernel ++ descriptorEnding) := by
  rw [described, List.mem_filterMap]
  exact exists_congr fun s => and_congr_right fun _ => described?_eq_some_iff

theorem described_eq_nil_iff : described symbols = [] ↔ ¬ HasDescriptor symbols := by
  rw [List.eq_nil_iff_forall_not_mem]
  constructor
  · rintro h ⟨s, hs, hdefinition, name, hname, kernel, rfl⟩
    exact h kernel (mem_described_iff.mpr ⟨s, hs, hdefinition, hname⟩)
  · intro h kernel hkernel
    obtain ⟨s, hs, hdefinition, hname⟩ := mem_described_iff.mp hkernel
    exact h ⟨s, hs, hdefinition, _, hname, List.suffix_append _ _⟩

/-! ## The kernels, in words of the symbols -/

/-- The symbol is a kernel of the given name: a function that has a descriptor, or a global one if
there is no descriptor at all. -/
def IsKernelNamed (symbols : List Symbol) (s : Symbol) (name : Text) : Prop :=
  IsFunctionNamed s name ∧
    if HasDescriptor symbols then IsDefined symbols (name ++ descriptorEnding) else s.isGlobal

instance (symbols : List Symbol) (s : Symbol) (name : Text) :
    Decidable (IsKernelNamed symbols s name) :=
  inferInstanceAs (Decidable (_ ∧ _))

theorem isKernel_iff (h : f.isGlobal = s.isGlobal) :
    (if (described symbols).isEmpty then f.isGlobal else (described symbols).contains f.name) ↔
      if HasDescriptor symbols then IsDefined symbols (f.name ++ descriptorEnding)
      else s.isGlobal := by
  by_cases hdescribed : HasDescriptor symbols
  · have hsome : (described symbols).isEmpty = false :=
      List.isEmpty_eq_false_iff.mpr fun hnil => described_eq_nil_iff.mp hnil hdescribed
    rw [hsome, if_pos hdescribed, if_neg Bool.false_ne_true, List.contains_iff_mem,
      mem_described_iff]
  · rw [described_eq_nil_iff.mpr hdescribed, if_neg hdescribed, h]
    rfl

/-- **The names of the kernels are those of the symbols that are kernels**, in order. -/
theorem kernelNames_eq_filterMap (symbols : List Symbol) : kernelNames symbols
    = symbols.filterMap fun s => s.name.filter fun name => IsKernelNamed symbols s name := by
  rw [kernelNames_eq, kernels, functions, List.filter_filterMap, List.map_filterMap]
  refine List.filterMap_congr fun s _ => Option.ext fun name => ?_
  rw [Option.map_eq_some_iff, Option.filter_eq_some_iff]
  constructor
  · rintro ⟨f, hf, rfl⟩
    obtain ⟨hf, hkernel⟩ := Option.filter_eq_some_iff.mp hf
    obtain ⟨hfunction, -, hglobal⟩ := function?_eq_some_iff.mp hf
    exact ⟨hfunction.2.2.1, decide_eq_true ⟨hfunction, (isKernel_iff hglobal).mp hkernel⟩⟩
  · rintro ⟨-, hkernel⟩
    obtain ⟨hfunction, hkernel⟩ := of_decide_eq_true hkernel
    refine ⟨⟨name, s.size, s.isGlobal⟩, Option.filter_eq_some_iff.mpr ⟨?_, ?_⟩, rfl⟩
    · exact function?_eq_some_iff.mpr ⟨hfunction, rfl, rfl⟩
    · exact (isKernel_iff rfl).mpr hkernel

/-! ## Another order, further symbols -/

/-- **The functions, and the set of the names described, tell the kernels.** -/
theorem kernelNames_congr (hfunctions : functions symbols = functions symbols')
    (hdescribed : ∀ kernel, kernel ∈ described symbols ↔ kernel ∈ described symbols') :
    kernelNames symbols = kernelNames symbols' := by
  have hempty : (described symbols).isEmpty = (described symbols').isEmpty := by
    rw [Bool.eq_iff_iff, List.isEmpty_iff, List.isEmpty_iff, List.eq_nil_iff_forall_not_mem,
      List.eq_nil_iff_forall_not_mem]
    exact forall_congr' fun kernel => not_congr (hdescribed kernel)
  have hcontains (f : Function) :
      (described symbols).contains f.name = (described symbols').contains f.name := by
    rw [Bool.eq_iff_iff, List.contains_iff_mem, List.contains_iff_mem, hdescribed]
  rw [kernelNames_eq, kernelNames_eq, kernels, kernels, hfunctions, hempty]
  simp only [hcontains]

theorem codeSize?_congr (hfunctions : functions symbols = functions symbols') (kernel : Text) :
    codeSize? symbols kernel = codeSize? symbols' kernel := by
  rw [codeSize?, codeSize?, ← functions, ← functions, hfunctions]

/-- The symbol is a function. -/
def IsFunction (s : Symbol) : Prop := ∃ name ∈ s.name, IsFunctionNamed s name

instance (s : Symbol) : Decidable (IsFunction s) :=
  inferInstanceAs (Decidable (∃ name ∈ s.name, _))

theorem functions_filter (symbols : List Symbol) :
    functions (symbols.filter fun s => IsFunction s) = functions symbols := by
  rw [functions, functions, List.filterMap_filter]
  refine List.filterMap_congr fun s _ => ?_
  by_cases h : IsFunction s
  · rw [if_pos (decide_eq_true h)]
  · rw [if_neg (by simpa using h), eq_comm, Option.eq_none_iff_forall_ne_some]
    intro f hf
    have hfunction := (function?_eq_some_iff.mp hf).1
    exact h ⟨f.name, hfunction.2.2.1, hfunction⟩

/-- The symbol is undefined, unnamed or unreadable. -/
def IsIdle (s : Symbol) : Prop := ¬ s.isDefinition ∨ s.name = some [] ∨ s.name = none

instance (s : Symbol) : Decidable (IsIdle s) := inferInstanceAs (Decidable (_ ∨ _))

/-- The second list is the first one with idle symbols put in. -/
inductive Padded : List Symbol → List Symbol → Prop
  | nil : Padded [] []
  | keep (s : Symbol) {rest rest' : List Symbol} (h : Padded rest rest') :
    Padded (s :: rest) (s :: rest')
  | insert {s : Symbol} {rest rest' : List Symbol} (hs : IsIdle s) (h : Padded rest rest') :
    Padded rest (s :: rest')

theorem Padded.refl : ∀ symbols, Padded symbols symbols
  | [] => .nil
  | s :: symbols => .keep s (.refl symbols)

theorem definedName?_of_isIdle (h : IsIdle s) : s.definedName? = none := by
  rw [Option.eq_none_iff_forall_ne_some]
  intro name hname
  obtain ⟨hdefinition, hread, hne⟩ := definedName?_eq_some_iff.mp hname
  rcases h with h | h | h
  · exact h hdefinition
  · exact hne (Option.some.inj (hread.symm.trans h))
  · cases hread.symm.trans h

theorem described?_of_isIdle (h : IsIdle s) : s.described? = none := by
  rw [described?, definedName?_of_isIdle h, Option.bind_none]

theorem function?_of_isIdle (h : IsIdle s) : s.function? = none := by
  rw [function?, definedName?_of_isIdle h]
  split <;> rfl

/-- Idle symbols show in neither view. -/
theorem Padded.views (h : Padded symbols symbols') :
    functions symbols = functions symbols' ∧ described symbols = described symbols' := by
  induction h with
  | nil => exact ⟨rfl, rfl⟩
  | keep s _ ih =>
    rw [functions, described] at ih ⊢
    rw [functions, described, List.filterMap_cons, List.filterMap_cons, List.filterMap_cons,
      List.filterMap_cons, ih.1, ih.2]
    exact ⟨rfl, rfl⟩
  | insert hs _ ih =>
    rw [functions, described] at ih ⊢
    rw [functions, described, List.filterMap_cons_none (function?_of_isIdle hs),
      List.filterMap_cons_none (described?_of_isIdle hs)]
    exact ih

/-- **The kernels are the functions with a descriptor, or the global functions if no symbol is a
descriptor.**  Their names and the code sizes stay as they are when the symbols are put into another
order that keeps that of the functions, and when idle symbols are put in. -/
theorem kernelNames_and_sizes (symbols symbols' : List Symbol) :
    (kernelNames symbols
        = symbols.filterMap fun s => s.name.filter fun name => IsKernelNamed symbols s name) ∧
      ((symbols.Perm symbols' ∧
            (symbols.filter fun s => IsFunction s) = symbols'.filter fun s => IsFunction s) ∨
          Padded symbols symbols' →
        kernelNames symbols = kernelNames symbols' ∧
          ∀ kernel, codeSize? symbols kernel = codeSize? symbols' kernel) := by
  refine ⟨kernelNames_eq_filterMap symbols, ?_⟩
  rintro (⟨hperm, horder⟩ | hpadded)
  · have hfunctions : functions symbols = functions symbols' := by
      rw [← functions_filter symbols, horder, functions_filter]
    exact ⟨kernelNames_congr hfunctions fun kernel => (hperm.filterMap _).mem_iff,
      codeSize?_congr hfunctions⟩
  · obtain ⟨hfunctions, hdescribed⟩ := hpadded.views
    exact ⟨kernelNames_congr hfunctions fun kernel => by rw [hdescribed],
      codeSize?_congr hfunctions⟩

/-- Three functions, two of them with a descriptor, and descriptors of no function. -/
def mixedSymbols : List Symbol :=
  [⟨some "b.kd".toList, true, false, true, 64⟩, ⟨some ['a'], true, true, true, 8⟩,
    ⟨some ".kd".toList, true, false, false, 0⟩, ⟨some ['b'], true, true, false, 16⟩,
    ⟨some ['c'], true, true, true, 24⟩, ⟨some "a.kd".toList, true, false, true, 64⟩]

/-- The same symbols, the functions first. -/
def sortedSymbols : List Symbol :=
  [⟨some ['a'], true, true, true, 8⟩, ⟨some ['b'], true, true, false, 16⟩,
    ⟨some ['c'], true, true, true, 24⟩, ⟨some "a.kd".toList, true, false, true, 64⟩,
    ⟨some "b.kd".toList, true, false, true, 64⟩, ⟨some ".kd".toList, true, false, false, 0⟩]

/-- The descriptor of the third function as a symbol that is not defined. -/
def missingDescriptor : Symbol := ⟨some "c.kd".toList, false, false, true, 0⟩

theorem kernelNames_and_sizes_mixedSymbols :
    kernelNames mixedSymbols = [['a'], ['b']] ∧
      (mixedSymbols.Perm sortedSymbols ∧ (mixedSymbols.filter fun s => IsFunction s)
          = sortedSymbols.filter fun s => IsFunction s) ∧
      kernelNames sortedSymbols = [['a'], ['b']] ∧
      Padded mixedSymbols (missingDescriptor :: mixedSymbols) ∧
      kernelNames (missingDescriptor :: mixedSymbols) = [['a'], ['b']] := by
  have hnames : kernelNames mixedSymbols = [['a'], ['b']] := by decide
  have horder : mixedSymbols.Perm sortedSymbols ∧ (mixedSymbols.filter fun s => IsFunction s)
      = sortedSymbols.filter fun s => IsFunction s := by decide
  have hpadded : Padded mixedSymbols (missingDescriptor :: mixedSymbols) :=
    .insert (by decide) (.refl _)
  have hsorted := ((kernelNames_and_sizes _ _).2 (.inl horder)).1
  have hlonger := ((kernelNames_and_sizes _ _).2 (.inr hpadded)).1
  exact ⟨hnames, horder, hsorted.symm.trans hnames, hpadded, hlonger.symm.trans hnames⟩

end KernelIsa.Symbol
