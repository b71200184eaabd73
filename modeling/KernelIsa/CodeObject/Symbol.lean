import KernelIsa.Text.Basic

/-!
# CodeObject/Symbol — the kernels among the symbols of a code object

A code object defines a kernel twice: by a function symbol for its code, and by a descriptor with
the same name and `.kd` behind it.  `kernelNames` lists the functions that have a descriptor, or all
global functions if there is no descriptor at all; `codeSize?` is the size of a function.
-/

namespace KernelIsa

/-- A symbol of a code object. -/
structure Symbol where
  /-- The name, if it can be read. -/
  name : Option Text
  isDefinition : Bool
  /-- Whether the symbol stands for code. -/
  isFunction : Bool
  isGlobal : Bool
  size : Nat
  deriving DecidableEq, Repr

namespace Symbol

/-- The end of a descriptor's name. -/
def descriptorEnding : Text := ".kd".toList

/-- The name of a definition, if it can be read and is not empty. -/
def definedName? (symbol : Symbol) : Option Text :=
  symbol.name.filter fun name => !name.isEmpty && symbol.isDefinition

/-- The kernel that a descriptor describes. -/
def described? (symbol : Symbol) : Option Text :=
  symbol.definedName?.bind (Text.dropEnding? descriptorEnding)

/-- A function: a definition of code that is no descriptor. -/
structure Function where
  name : Text
  size : Nat
  isGlobal : Bool
  deriving DecidableEq, Repr

/-- The function that a symbol defines. -/
def function? (symbol : Symbol) : Option Function :=
  if symbol.isFunction && symbol.described?.isNone then
    symbol.definedName?.map fun name => ⟨name, symbol.size, symbol.isGlobal⟩
  else none

/-- The names of the kernels, in the order of the symbols. -/
def kernelNames (symbols : List Symbol) : List Text :=
  let functions := symbols.filterMap function?
  let described := symbols.filterMap described?
  let kernels :=
    if described.isEmpty then functions.filter Function.isGlobal
    else functions.filter fun f => described.contains f.name
  kernels.map Function.name

/-- The code size of the first function with a name, unless it is zero. -/
def codeSize? (symbols : List Symbol) (kernel : Text) : Option Nat :=
  (((symbols.filterMap function?).find? fun f => f.name = kernel).map Function.size).filter
    fun size => 0 < size

end Symbol

end KernelIsa
