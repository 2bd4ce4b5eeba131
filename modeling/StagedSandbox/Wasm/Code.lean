import StagedSandbox.Wasi.Import

/-!
# Module code

A part of WebAssembly that is large enough for linked programs: straight-line functions on words of
32 bits, which store to the memory, call imports and functions defined before them, and trap. A
definition says what a module consists of. It has a meaning if it is valid: each function finds the
words that it needs on its stack, all imports are there under their types, and the data fits into
the memory.
-/

namespace StagedSandbox.Wasm

open Wasi (ValueType FunctionType Machine)

/-! ### What a module consists of -/

inductive Instruction where
  /-- Push a word. -/
  | const (n : UInt32)
  /-- Push the parameter of an index. -/
  | parameter (index : Nat)
  /-- Store a word at the address below it. -/
  | store
  | drop
  /-- Call the function of an index, imports counted first. -/
  | call (function : Nat)
  | unreachable
  deriving DecidableEq, Repr

structure Function where
  type : FunctionType
  body : List Instruction
  deriving DecidableEq, Repr

structure Definition where
  /-- The names and types of its imports. -/
  imports : List (String × FunctionType) := []
  /-- The number of pages of the memory that it exports, if it exports one. -/
  pages : Option Nat := none
  /-- The data that its memory holds in the beginning. -/
  segments : List (Nat × Bytes) := []
  functions : List Function := []
  /-- The index of its entry function, if it has one. -/
  entry : Option Nat := none
  deriving DecidableEq

/-! ### The memory in the beginning -/

/-- The most pages of a memory. -/
def maxPages : Nat := 65536

/-- Put a piece of data into a memory, unless it leaves the memory. -/
def load (m : Memory) (segment : Nat × Bytes) : Option Memory :=
  if segment.1 + segment.2.size ≤ m.size then some (m.put segment.1 segment.2) else none

/-- A memory of so many pages that holds the data of segments, unless they do not fit into it. -/
def initialMemory? (pages : Nat) (segments : List (Nat × Bytes)) : Option Memory :=
  if pages ≤ maxPages then segments.foldlM load (Memory.ofPages pages) else none

/-! ### Running -/

/-- Why a module is stopped in the middle of an instruction. -/
inductive Trap where
  | unreachable
  | outOfBounds
  deriving DecidableEq, Repr

/-- How a module stops before it comes to the end of its code. -/
inductive Stopped where
  | stop (stop : Stop)
  | trap (trap : Trap)
  deriving DecidableEq, Repr

/-- A run on the memory of a module and the guest behind its imports. -/
abbrev Run (α : Type) := EStateM Stopped Machine α

/-- A function that can be called. -/
structure Routine where
  type : FunctionType
  call : List UInt32 → Run (List UInt32)

/-- A call to an import. -/
def performImport (c : Wasi.Call) (results : List ValueType) : Run (List UInt32) := fun m =>
  match Wasi.perform c m with
  | (.returned code, m) => .ok (results.map fun _ => UInt32.ofNat code) m
  | (.stopped stop, m) => .error (.stop stop) m

/-- The routine of an import, if there is one of that name and type. -/
def importRoutine? (name : String) (type : FunctionType) : Option Routine :=
  match Wasi.Import.ofName? name with
  | some i =>
    if i.type = type then
      some ⟨type, fun arguments =>
        performImport (i.call (arguments.map fun n => (n.toNat : Int))) type.results⟩
    else none
  | none => none

/-- Store a word of 32 bits. -/
def storeWord (address value : UInt32) : Run Unit := fun m =>
  if address.toNat + 4 ≤ m.memory.size then
    let word := Bytes.ofList (Bytes.littleEndian 4 value.toNat)
    .ok () { m with memory := m.memory.put address.toNat word }
  else .error (.trap .outOfBounds) m

/-- Perform an instruction on a stack, the last word pushed being the first one. -/
def Instruction.run (routines : List Routine) (parameters : List UInt32) (stack : List UInt32) :
    Instruction → Run (List UInt32)
  | .const n => return n :: stack
  | .parameter index => return parameters.getD index 0 :: stack
  | .store => do
    storeWord (stack.getD 1 0) (stack.getD 0 0)
    return stack.drop 2
  | .drop => return stack.drop 1
  | .call function => do
    match routines[function]? with
    | some routine =>
      let count := routine.type.parameters.length
      let results ← routine.call (stack.take count).reverse
      return results.reverse ++ stack.drop count
    | none => return stack
  | .unreachable => throw (.trap .unreachable)

/-- The words that a function leaves on its stack. -/
def Function.run (routines : List Routine) (f : Function) (parameters : List UInt32) :
    Run (List UInt32) := do
  return (← f.body.foldlM (Instruction.run routines parameters) []).reverse

/-! ### Validity -/

/-- The types of the words on the stack after an instruction, if it finds what it needs. -/
def Instruction.check (functions : List FunctionType) (parameters stack : List ValueType) :
    Instruction → Option (List ValueType)
  | .const _ => some (.i32 :: stack)
  | .parameter index => parameters[index]?.map (· :: stack)
  | .store =>
    match stack with
    | .i32 :: .i32 :: rest => some rest
    | _ => none
  | .drop =>
    match stack with
    | _ :: rest => some rest
    | [] => none
  | .call function =>
    match functions[function]? with
    | some type =>
      if stack.take type.parameters.length = type.parameters.reverse then
        some (type.results.reverse ++ stack.drop type.parameters.length)
      else none
    | none => none
  | .unreachable => some stack

/-- Whether a function that can call functions of the given types leaves its results. -/
def Function.isValid (functions : List FunctionType) (f : Function) : Bool :=
  f.body.foldlM (Instruction.check functions f.type.parameters) [] = some f.type.results.reverse

/-- Add the routine of a function to those that it can call, if it is valid. -/
def addRoutine (routines : List Routine) (f : Function) : Option (List Routine) :=
  if f.isValid (routines.map Routine.type) then
    some (routines ++ [⟨f.type, f.run routines⟩])
  else none

/-! ### Meaning -/

/-- What a module is to do on a guest, and how that ends. -/
abbrev Meaning := Guest → Except Stopped Unit × Guest

namespace Definition

/-- The routines of a module, imports first. -/
def routines? (d : Definition) : Option (List Routine) := do
  let imports ← d.imports.mapM fun i => importRoutine? i.1 i.2
  d.functions.foldlM addRoutine imports

/-- The routine that starts a module. -/
def entry? (d : Definition) (routines : List Routine) : Option Routine := do
  let routine ← routines[← d.entry]?
  if routine.type = ⟨[], []⟩ then some routine else none

/-- Call a routine on a guest and a memory. -/
def start (memory : Memory) (entry : Routine) : Meaning := fun g =>
  match entry.call [] ⟨memory, g⟩ with
  | .ok _ m => (.ok (), m.guest)
  | .error stopped m => (.error stopped, m.guest)

/-- What a module does, if it is valid and has a memory and an entry function. -/
def meaning? (d : Definition) : Option Meaning := do
  let routines ← d.routines?
  let memory ← initialMemory? (← d.pages) d.segments
  return start memory (← d.entry? routines)

end Definition

end StagedSandbox.Wasm
