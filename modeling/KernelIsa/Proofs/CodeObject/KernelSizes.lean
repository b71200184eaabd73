import KernelIsa.CodeObject.Symbol
import Mathlib.Data.List.Nodup

/-!
# Proofs/CodeObject/KernelSizes — the size of the function that is a kernel

The names of the kernels and their code sizes are found in different ways: a name comes from a
function that is global or described (`kernels`), a size from the first function of that name
(`codeSize?_eq`).  A descriptor speaks of every function of its name, so that with descriptors the
first one is a kernel as well (`mem_kernels_of_described`), and the two agree as soon as no name is
listed twice.  Without descriptors a local function may stand in front of the global one
(`IsShadowed`).  These two are all that can come between a kernel and its size (`sized_iff`).
-/

namespace KernelIsa.Symbol

variable {symbols : List Symbol} {fs : List Function} {f g : Function}

/-! ## The functions that are kernels -/

/-- The functions of a code object. -/
def functions (symbols : List Symbol) : List Function := symbols.filterMap function?

/-- The names that the descriptors of a code object describe. -/
def described (symbols : List Symbol) : List Text := symbols.filterMap described?

/-- The functions that are kernels, in the order of the symbols. -/
def kernels (symbols : List Symbol) : List Function :=
  (functions symbols).filter fun f =>
    if (described symbols).isEmpty then f.isGlobal else (described symbols).contains f.name

theorem kernelNames_eq (symbols : List Symbol) :
    kernelNames symbols = (kernels symbols).map Function.name := by
  rw [kernelNames, kernels, functions, described]
  cases (symbols.filterMap described?).isEmpty <;> rfl

theorem mem_functions_of_mem_kernels (h : f ∈ kernels symbols) : f ∈ functions symbols :=
  (List.mem_filter.mp h).1

/-- **With descriptors, every function with the name of a kernel is a kernel.** -/
theorem mem_kernels_of_described (hdescribed : described symbols ≠ []) (hf : f ∈ kernels symbols)
    (hg : g ∈ functions symbols) (hname : g.name = f.name) : g ∈ kernels symbols := by
  have hsome : (described symbols).isEmpty = false := List.isEmpty_eq_false_iff.mpr hdescribed
  have hkernel := (List.mem_filter.mp hf).2
  refine List.mem_filter.mpr ⟨hg, ?_⟩
  rw [hsome] at hkernel ⊢
  rwa [hname]

/-- Without descriptors, the kernels are the global functions. -/
theorem mem_kernels_of_global (hdescribed : described symbols = []) (hg : g ∈ functions symbols)
    (hglobal : g.isGlobal = true) : g ∈ kernels symbols := by
  refine List.mem_filter.mpr ⟨hg, ?_⟩
  rw [hdescribed]
  exact hglobal

/-! ## The first function of a name -/

/-- The code size of a function; a size of zero is none. -/
def Function.codeSize? (f : Function) : Option Nat := if 0 < f.size then some f.size else none

theorem Function.codeSize?_inj : f.codeSize? = g.codeSize? ↔ f.size = g.size := by
  refine ⟨fun h => ?_, fun h => by rw [codeSize?, codeSize?, h]⟩
  rw [codeSize?, codeSize?] at h
  split at h <;> split at h
  · exact Option.some.inj h
  · cases h
  · cases h
  · omega

/-- `g` is the first of some functions that has the given name. -/
def IsFirst (fs : List Function) (name : Text) (g : Function) : Prop :=
  g.name = name ∧ ∃ before after, fs = before ++ g :: after ∧ ∀ h ∈ before, h.name ≠ name

theorem IsFirst.mem {name : Text} (h : IsFirst fs name g) : g ∈ fs := by
  obtain ⟨-, before, after, rfl, -⟩ := h
  exact List.mem_append_cons_self

/-- A function has a first one of its name. -/
theorem exists_isFirst (hf : f ∈ fs) : ∃ g, IsFirst fs f.name g := by
  have hfound : (fs.find? fun g => g.name = f.name).isSome :=
    List.find?_isSome.mpr ⟨f, hf, by simp⟩
  obtain ⟨g, hg⟩ := Option.isSome_iff_exists.mp hfound
  obtain ⟨hname, before, after, hsplit, hbefore⟩ := List.find?_eq_some_iff_append.mp hg
  exact ⟨g, by simpa using hname, before, after, hsplit, by simpa using hbefore⟩

/-- **A code size is that of the first function of the name.** -/
theorem codeSize?_eq {name : Text} (h : IsFirst (functions symbols) name g) :
    codeSize? symbols name = g.codeSize? := by
  obtain ⟨hname, before, after, hsplit, hbefore⟩ := h
  have hfound : (symbols.filterMap function?).find? (fun f => f.name = name) = some g :=
    List.find?_eq_some_iff_append.mpr
      ⟨by simpa using hname, before, after, hsplit, by simpa using hbefore⟩
  rw [codeSize?, hfound, Option.map_some, Function.codeSize?, Option.filter_some]
  simp only [decide_eq_true_eq]

/-! ## Kernels and sizes -/

/-- A local function of the same name and of another size stands in front. -/
def IsShadowed (fs : List Function) (f : Function) : Prop :=
  ∃ g, IsFirst fs f.name g ∧ g.isGlobal = false ∧ g.size ≠ f.size

/-- Kernels of different names are told apart by their names. -/
theorem eq_of_name_eq (h : (kernels symbols).Pairwise fun f g => f.name ≠ g.name)
    (hf : f ∈ kernels symbols) (hg : g ∈ kernels symbols) (hname : g.name = f.name) : g = f :=
  List.inj_on_of_nodup_map (List.pairwise_map.mpr h) hg hf hname

/-- **No name is listed twice and each kernel is given its own size** exactly if no two kernels have
one name and, in an object without descriptors, no kernel is shadowed. -/
theorem sized_iff (symbols : List Symbol) :
    ((kernelNames symbols).Nodup
        ∧ ∀ f ∈ kernels symbols, codeSize? symbols f.name = f.codeSize?) ↔
      ((kernels symbols).Pairwise fun f g => f.name ≠ g.name)
        ∧ (described symbols = [] → ∀ f ∈ kernels symbols, ¬ IsShadowed (functions symbols) f) := by
  rw [kernelNames_eq, List.Nodup, List.pairwise_map]
  refine and_congr_right fun hnames => ⟨fun hsized _ f hf => ?_, fun hclear f hf => ?_⟩
  · rintro ⟨g, hfirst, -, hsize⟩
    have hequal := hsized f hf
    rw [codeSize?_eq hfirst] at hequal
    exact hsize (Function.codeSize?_inj.mp hequal)
  · obtain ⟨g, hfirst⟩ := exists_isFirst (mem_functions_of_mem_kernels hf)
    rw [codeSize?_eq hfirst, Function.codeSize?_inj]
    -- a first function that is a kernel is the kernel itself
    by_cases hkernel : g ∈ kernels symbols
    · rw [eq_of_name_eq hnames hf hkernel hfirst.1]
    · have hnone : described symbols = [] := by_contra fun hdescribed =>
        hkernel (mem_kernels_of_described hdescribed hf hfirst.mem hfirst.1)
      have hlocal : g.isGlobal = false := Bool.eq_false_iff.mpr fun hglobal =>
        hkernel (mem_kernels_of_global hnone hfirst.mem hglobal)
      exact by_contra fun hsize => hclear hnone f hf ⟨g, hfirst, hlocal, hsize⟩

/-- A local function in front of a global one of the same name. -/
def shadowedSymbols : List Symbol :=
  [⟨some ['k'], true, true, false, 8⟩, ⟨some ['k'], true, true, true, 16⟩]

/-- Two functions of one name, and the descriptor of that name. -/
def twinSymbols : List Symbol :=
  [⟨some ['k'], true, true, false, 8⟩, ⟨some ['k'], true, true, false, 8⟩,
    ⟨some "k.kd".toList, true, false, true, 64⟩]

/-- A kernel may be given the size of another function, and a name may be listed twice. -/
theorem not_sized_shadowedSymbols :
    (∃ f ∈ kernels shadowedSymbols, codeSize? shadowedSymbols f.name ≠ f.codeSize?)
      ∧ ¬ (kernelNames twinSymbols).Nodup := by
  decide

end KernelIsa.Symbol
