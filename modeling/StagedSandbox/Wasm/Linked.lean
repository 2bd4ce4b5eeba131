import StagedSandbox.Memory
import StagedSandbox.Object.Text

/-!
# Linked programs

A linked program holds the data of its writes in memory, one after the other from address 1024
on, and carries its operations out in order; at its end it exits with code zero. Empty writes are
left out. The words at addresses 0 and 4 pass a buffer to `fd_write`, which answers at address 8.

Its written form is a module in the text format.
-/

namespace StagedSandbox.Wasm

/-- A step of a linked program. -/
inductive Action where
  | write (address length : Nat)
  | exit (code : Int32)
  | abort
  deriving DecidableEq, Repr

/-- A linked program. -/
structure Linked where
  /-- Whether it imports `proc_raise`. -/
  raises : Bool
  /-- The size of its memory. -/
  pages : Nat
  /-- The data that its memory holds in the beginning. -/
  segments : List (Nat × Bytes)
  actions : List Action
  deriving DecidableEq

namespace Linked

/-! ### Layout -/

/-- The address of the first data. -/
def dataBase : Nat := 1024

/-- The number of the signal that ends an aborted program. -/
def abortSignal : Int32 := 6

/-- The data of operations, placed from an address on. -/
def placeData (address : Nat) : List Op → List (Nat × Bytes)
  | [] => []
  | .write data :: rest =>
    if data.size = 0 then placeData address rest
    else (address, data) :: placeData (address + data.size) rest
  | _ :: rest => placeData address rest

/-- The steps for operations whose data is placed from an address on. -/
def placeActions (address : Nat) : List Op → List Action
  | [] => []
  | .write data :: rest =>
    if data.size = 0 then placeActions address rest
    else .write address data.size :: placeActions (address + data.size) rest
  | .exit code :: rest => .exit code :: placeActions address rest
  | .abort :: rest => .abort :: placeActions address rest

/-- The number of bytes that operations write. -/
def dataSize : List Op → Nat
  | [] => 0
  | .write data :: rest => data.size + dataSize rest
  | _ :: rest => dataSize rest

/-- The number of pages that hold so many bytes, at least one. -/
def pagesFor (size : Nat) : Nat := max 1 ((size + Memory.pageSize - 1) / Memory.pageSize)

/-- Lay out operations as a linked program. -/
def ofOps (ops : List Op) : Linked where
  raises := ops.contains .abort
  pages := pagesFor (dataBase + dataSize ops)
  segments := placeData dataBase ops
  actions := placeActions dataBase ops

/-! ### Written form -/

/-- Bytes as escapes of a string. -/
def escapeData (data : Bytes) : String :=
  String.ofList (data.list.flatMap fun b => '\\' :: Text.Hex.encodeByte b)

/-- The line of a data segment. -/
def segmentLine (segment : Nat × Bytes) : String :=
  "  (data (i32.const " ++ Text.decimal segment.1 ++ ") \"" ++ escapeData segment.2 ++ "\")"

/-- The lines of a step. -/
def actionLines : Action → List String
  | .write address length =>
    ["    (call $write (i32.const " ++ Text.decimal address ++ ") (i32.const " ++
      Text.decimal length ++ "))"]
  | .exit code => ["    (call $proc_exit (i32.const " ++ Text.signed code.toInt ++ "))"]
  | .abort => ["    (drop (call $proc_raise (i32.const 6)))", "    (unreachable)"]

def memoryLine (pages : Nat) : String :=
  "  (memory (export \"memory\") " ++ Text.decimal pages ++ ")"

def raiseLine : String :=
  "  (import \"wasi_snapshot_preview1\" \"proc_raise\" " ++
    "(func $proc_raise (param i32) (result i32)))"

def importLines : List String :=
  ["(module",
    "  (import \"wasi_snapshot_preview1\" \"fd_write\" " ++
      "(func $fd_write (param i32 i32 i32 i32) (result i32)))",
    "  (import \"wasi_snapshot_preview1\" \"proc_exit\" (func $proc_exit (param i32)))"]

def writeLines : List String :=
  ["  (func $write (param $ptr i32) (param $len i32)",
    "    (i32.store (i32.const 0) (local.get $ptr))",
    "    (i32.store (i32.const 4) (local.get $len))",
    "    (drop (call $fd_write (i32.const 1) (i32.const 0) (i32.const 1) (i32.const 8))))"]

def entryLine : String := "  (func (export \"_start\")"

def lastLine : String := "    (call $proc_exit (i32.const 0))))"

/-- The lines of the written form. -/
def renderLines (l : Linked) : List String :=
  importLines ++ (if l.raises then [raiseLine] else []) ++ [memoryLine l.pages] ++
    l.segments.map segmentLine ++ writeLines ++ [entryLine] ++ l.actions.flatMap actionLines ++
    [lastLine]

/-- The written form. -/
def render (l : Linked) : String := String.join (l.renderLines.map (· ++ "\n"))

end Linked

end StagedSandbox.Wasm
