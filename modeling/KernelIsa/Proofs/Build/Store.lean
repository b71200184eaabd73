import KernelIsa.Proofs.Build.TargetFiles

/-!
# Proofs/Build/Store — files side by side

A `Store` has files under their paths and nothing else.  Tools that are functions of their arguments
and of the files they are given make up a builder over it (`Store.builder`), and each such builder
is local (`Store.isLocal_builder`).
-/

namespace KernelIsa

/-- Files under their paths. -/
abbrev Store := Path → Option Bytes

/-- What a tool answers, and the content of its output file if it writes one. -/
structure ToolEffect where
  answer : Except Fault ToolOutput
  content : Option Bytes

/-- Tools as functions of their arguments and of the files that they are given. -/
structure PureTools where
  compile : (device : Text) → Options → (sources : List (Option Bytes)) → ToolEffect
  compileIntermediate : (device : Text) → Options → (source : Option Bytes) → ToolEffect
  disassemble : (binary : Option Bytes) → (device : Text) → (lineNumbers : Bool) →
    Except Fault ToolOutput
  kernelNames : (binary : Option Bytes) → Except Fault (List Text)
  codeSize : (binary : Option Bytes) → (kernel : Text) → Except Fault (Option Nat)

namespace Store

/-! ## Actions -/

/-- The content of a file, if it is there. -/
def look (p : Path) : StateM Store (Option Bytes) := fun store => (store p, store)

/-- Gives a file a content, or takes it away. -/
def keep (p : Path) (content : Option Bytes) : StateM Store Unit :=
  fun store => ((), Function.update store p content)

/-- The contents of some files. -/
def lookAll : List Path → StateM Store (List (Option Bytes))
  | [] => return []
  | p :: rest => do
    let content ← look p
    let contents ← lookAll rest
    return content :: contents

/-- Lets a tool have its effect on its output file. -/
def carryOut (effect : ToolEffect) (output : Path) : StateM Store (Except Fault ToolOutput) := do
  match effect.content with
  | some content => keep output (some content)
  | none => pure ()
  return effect.answer

/-- The files of a store. -/
def files : Files (StateM Store) where
  read p := do
    match ← look p with
    | some content => return .ok content
    | none => return .error .missing
  write p content := do
    keep p (some content)
    return .ok ()
  remove p := do
    match ← look p with
    | some _ =>
      keep p none
      return .ok ()
    | none => return .error .missing
  isPresent p := do
    let content ← look p
    return content.isSome

/-- A host with a store, to which nothing can be told. -/
def host : Host (StateM Store) where
  files := files
  tell _ := return ()
  isCancelled := return false

/-- The services of tools. -/
def services (tools : PureTools) : Services (StateM Store) where
  compile device options sources output := do
    let contents ← lookAll sources
    carryOut (tools.compile device options contents) output
  compileIntermediate device options source output := do
    let content ← look source
    carryOut (tools.compileIntermediate device options content) output
  disassemble binary device lineNumbers := do
    let content ← look binary
    return tools.disassemble content device lineNumbers
  kernelNames binary := do
    let content ← look binary
    return tools.kernelNames content
  codeSize binary kernel := do
    let content ← look binary
    return tools.codeSize content kernel
  notes _ := return .ok []
  analyzer := none

/-- The builder of tools. -/
def builder (tools : PureTools) (compilerNames : CompilerNames) (workspace : Workspace) :
    Builder (StateM Store) where
  host := host
  services := services tools
  compilerNames := compilerNames
  workspace := workspace

/-! ## Locality -/

variable {store : Store} {read written : Set Path} {p output : Path}

/-- An action on a store is confined to some files. -/
abbrev KeepsTo {α : Type} (read written : Set Path) (store : Store) (x : StateM Store α) : Prop :=
  Confined (fun store p => store p) (id '' read) (id '' written) store x

theorem keepsTo_look (hp : p ∈ read ∪ written) : KeepsTo read written store (look p) := by
  rw [KeepsTo, Set.image_id, Set.image_id]
  exact fun s hs => ⟨hs p hp, fun l hl => hs l (.inr hl), fun _ _ => rfl⟩

theorem keepsTo_keep {content : Option Bytes} (hp : p ∈ written) :
    KeepsTo read written store (keep p content) := by
  rw [KeepsTo, Set.image_id, Set.image_id]
  refine fun s hs => ⟨rfl, fun l hl => ?_, fun l hl => ?_⟩
  · have heq : s l = store l := hs l (.inr hl)
    change Function.update s p content l = Function.update store p content l
    rw [Function.update_apply, Function.update_apply, heq]
  · have hne : l ≠ p := fun heq => hl (heq.symm ▸ hp)
    exact Function.update_of_ne hne _ _

theorem keepsTo_look_map {α : Type} (f : Option Bytes → α) (hp : p ∈ read ∪ written) :
    KeepsTo read written store (do let content ← look p; return f content) :=
  Confined.bind (keepsTo_look hp) (Confined.pure _)

theorem keepsTo_keep_map {α : Type} (a : α) {content : Option Bytes} (hp : p ∈ written) :
    KeepsTo read written store (do keep p content; return a) :=
  Confined.bind (keepsTo_keep hp) (Confined.pure _)

theorem keepsTo_lookAll {sources : List Path} (hsources : ∀ p ∈ sources, p ∈ read) :
    KeepsTo read written store (lookAll sources) := by
  induction sources generalizing store with
  | nil => exact Confined.pure _
  | cons p sources ih =>
    refine Confined.bind (keepsTo_look (.inl (hsources p List.mem_cons_self))) ?_
    refine Confined.bind (ih fun q hq => hsources q (List.mem_cons_of_mem _ hq)) ?_
    exact Confined.pure _

theorem keepsTo_carryOut {effect : ToolEffect} (houtput : output ∈ written) :
    KeepsTo read written store (carryOut effect output) := by
  rw [carryOut]
  cases effect.content with
  | some content => exact keepsTo_keep_map _ houtput
  | none => exact Confined.pure _

/-- **Tools that are functions of what they are given are local.** -/
theorem isLocal_builder (tools : PureTools) (compilerNames : CompilerNames)
    (workspace : Workspace) :
    (builder tools compilerNames workspace).IsLocal id (fun store p => store p) Set.univ where
  tell _ _ := Confined.pure _
  isPresent _ p _ := keepsTo_look_map _ (.inl (Set.mem_singleton p))
  remove store p _ := by
    refine Confined.bind (keepsTo_look (.inr (Set.mem_singleton p))) ?_
    split
    · exact keepsTo_keep_map _ (Set.mem_singleton p)
    · exact Confined.pure _
  write _ _ p _ := keepsTo_keep_map _ (Set.mem_singleton p)
  compile _ _ _ _ output _ :=
    Confined.bind (keepsTo_lookAll fun _ hp => hp) (keepsTo_carryOut (Set.mem_singleton output))
  compileIntermediate _ _ _ source output _ :=
    Confined.bind (keepsTo_look (.inl (Set.mem_singleton source)))
      (keepsTo_carryOut (Set.mem_singleton output))
  disassemble _ _ _ binary _ := keepsTo_look_map _ (.inl (Set.mem_singleton binary))
  kernelNames _ binary _ := keepsTo_look_map _ (.inl (Set.mem_singleton binary))
  codeSize _ _ binary _ := keepsTo_look_map _ (.inl (Set.mem_singleton binary))

/-- A run over a store is never cancelled. -/
theorem isSteady_builder (tools : PureTools) (compilerNames : CompilerNames)
    (workspace : Workspace) (written : Set Path) (store : Store) :
    (builder tools compilerNames workspace).IsSteady (fun store p => store p) written store :=
  Confined.pure _

end Store

end KernelIsa
