import StagedSandbox.Wasm.Code
import StagedSandbox.Wasm.Tree

/-!
# Module texts

The definition that a text in the text format stands for. Instructions are written in their folded
form, in which an instruction encloses those that give its operands. Functions are called by their
names, and only by functions that stand behind them.
-/

namespace StagedSandbox.Wasm

open Wasi (ValueType FunctionType)

/-! ### Numbers -/

/-- A natural number in decimal. -/
def natural? (digits : List Char) : Option Nat :=
  if digits ≠ [] ∧ digits.all Char.isDigit then
    some (digits.foldl (fun n c => 10 * n + (c.toNat - '0'.toNat)) 0)
  else none

/-- The word of 32 bits that a number stands for. -/
def word? : List Char → Option UInt32
  | '-' :: digits => (natural? digits).bind fun n =>
    if n ≤ 0x80000000 then some (UInt32.ofInt (-n)) else none
  | digits => (natural? digits).bind fun n =>
    if n < UInt32.size then some (UInt32.ofNat n) else none

/-- The text in a string. -/
def nameOf? (data : List UInt8) : Option String := (Bytes.ofList data).text?

/-! ### Functions -/

/-- The names that instructions may use. A name that is empty stands for none. -/
structure Scope where
  functions : List String
  parameters : List String

/-- The index of a name. -/
def indexOf? (names : List String) (name : String) : Option Nat :=
  if name = "" then none else names.idxOf? name

/-- The instruction of a word and those behind it. -/
def Scope.instruction? (s : Scope) : List String → Option Instruction
  | ["i32.const", n] => (word? n.toList).map .const
  | ["local.get", name] => (indexOf? s.parameters name).map .parameter
  | ["i32.store"] => some .store
  | ["drop"] => some .drop
  | ["call", name] => (indexOf? s.functions name).map .call
  | ["unreachable"] => some .unreachable
  | _ => none

mutual

/-- Add the instructions of a folded instruction to those that come before, the last first. -/
def Scope.addFolded (s : Scope) (code : List Instruction) : Tree → Option (List Instruction)
  | .list items => s.addParts code [] items
  | _ => none

/-- Add the instructions of a folded instruction whose first words are given. -/
def Scope.addParts (s : Scope) (code : List Instruction) (words : List String) :
    List Tree → Option (List Instruction)
  | [] => (s.instruction? words).map (· :: code)
  | .word text :: rest => s.addParts code (words ++ [text]) rest
  | .string _ :: _ => none
  | .list items :: rest => do
    let code ← s.addParts code [] items
    let code ← s.addAll code rest
    return (← s.instruction? words) :: code

/-- Add the instructions of folded instructions, one after the other. -/
def Scope.addAll (s : Scope) (code : List Instruction) : List Tree → Option (List Instruction)
  | [] => some code
  | item :: rest => do s.addAll (← s.addFolded code item) rest

end

def typeOf? : String → Option ValueType
  | "i32" => some .i32
  | "i64" => some .i64
  | _ => none

/-- The types of parameters or results without names. -/
def typesOf? : List Tree → Option (List ValueType)
  | [] => some []
  | .word text :: rest => do return (← typeOf? text) :: (← typesOf? rest)
  | _ => none

/-- Whether a word is a name. -/
def isName (text : String) : Bool := text.toList.head? = some '$'

/-- The parameters in a list: one with a name, or any number without. -/
def parametersOf? : List Tree → Option (List (String × ValueType))
  | .word name :: rest =>
    if isName name then
      match rest with
      | [.word text] => (typeOf? text).map fun type => [(name, type)]
      | _ => none
    else (typesOf? (.word name :: rest)).map (·.map fun type => ("", type))
  | items => (typesOf? items).map (·.map fun type => ("", type))

/-- What stands before the instructions of a function. -/
structure Head where
  name : String := ""
  /-- The name under which it is exported. -/
  exported : Option String := none
  parameters : List (String × ValueType) := []
  results : List ValueType := []

def Head.type (h : Head) : FunctionType := ⟨h.parameters.map Prod.snd, h.results⟩

/-- The results of a function, and what comes behind them. -/
def Head.readResults? (h : Head) : List Tree → Option (Head × List Tree)
  | .list (.word "result" :: items) :: rest =>
    (typesOf? items).map fun results => ({ h with results }, rest)
  | rest => some (h, rest)

/-- The parameters and results of a function, and what comes behind them. -/
def Head.readType? (h : Head) : List Tree → Option (Head × List Tree)
  | .list (.word "param" :: items) :: rest =>
    (parametersOf? items).bind fun parameters =>
      { h with parameters := h.parameters ++ parameters }.readType? rest
  | rest => h.readResults? rest

/-- The head of a function, and what comes behind it. -/
def Head.read? : List Tree → Option (Head × List Tree)
  | .word name :: .list [.word "export", .string exported] :: rest =>
    if isName name then
      (nameOf? exported).bind fun exported => { name, exported : Head }.readType? rest
    else none
  | .word name :: rest => if isName name then { name : Head }.readType? rest else none
  | .list [.word "export", .string exported] :: rest =>
    (nameOf? exported).bind fun exported => { exported : Head }.readType? rest
  | rest => ({} : Head).readType? rest

/-! ### Modules -/

/-- A definition to which further fields are added. -/
structure Draft where
  definition : Definition := {}
  /-- The names of the functions, imports first. -/
  names : List String := []

namespace Draft

/-- Whether a function may have a name. -/
def accepts (d : Draft) (name : String) : Bool := name = "" || !d.names.contains name

/-- Add an import. Imports come first. -/
def addImport? (d : Draft) : List Tree → Option Draft
  | [.string source, .string imported, .list (.word "func" :: items)] => do
    let (head, rest) ← Head.read? items
    let name ← nameOf? imported
    if source = (Bytes.ofText Wasi.Import.moduleName).list ∧ rest.isEmpty ∧
        head.exported = none ∧ d.accepts head.name ∧ d.definition.functions = [] ∧
        d.definition.pages = none then
      some
        { definition :=
            { d.definition with imports := d.definition.imports ++ [(name, head.type)] }
          names := d.names ++ [head.name] }
    else none
  | _ => none

/-- Add the memory, which is exported under the name that the imports look for. -/
def addMemory? (d : Draft) : List Tree → Option Draft
  | [.list [.word "export", .string exported], .word pages] =>
    if nameOf? exported = some "memory" ∧ d.definition.pages = none then
      (natural? pages.toList).map fun pages =>
        { d with definition := { d.definition with pages } }
    else none
  | _ => none

/-- Add a data segment. The last one added is the first one. -/
def addData? (d : Draft) : List Tree → Option Draft
  | [.list [.word "i32.const", .word address], .string data] =>
    (word? address.toList).map fun address =>
      { d with definition.segments :=
          (address.toNat, Bytes.ofList data) :: d.definition.segments }
  | _ => none

/-- Add a function. The entry function is the one that is exported as such. -/
def addFunction? (d : Draft) (items : List Tree) : Option Draft := do
  let (head, items) ← Head.read? items
  let scope : Scope := ⟨d.names, head.parameters.map Prod.fst⟩
  let body := (← scope.addAll [] items).reverse
  let entry ←
    match head.exported with
    | none => some d.definition.entry
    | some "_start" =>
      if d.definition.entry = none then some (some d.names.length) else none
    | some _ => none
  if d.accepts head.name then
    some
      { definition :=
          { d.definition with functions := d.definition.functions ++ [⟨head.type, body⟩], entry }
        names := d.names ++ [head.name] }
  else none

/-- Add a field of a module. -/
def addField? (d : Draft) : Tree → Option Draft
  | .list (.word "import" :: items) => d.addImport? items
  | .list (.word "memory" :: items) => d.addMemory? items
  | .list (.word "data" :: items) => d.addData? items
  | .list (.word "func" :: items) => d.addFunction? items
  | _ => none

/-- The definition once all fields were added. -/
def finished (d : Draft) : Definition :=
  { d.definition with segments := d.definition.segments.reverse }

end Draft

/-- The definition that the items of a list stand for. -/
def Definition.ofItems? : List Tree → Option Definition
  | .word "module" :: fields => (fields.foldlM Draft.addField? {}).map Draft.finished
  | _ => none

/-- The definition that a text stands for. -/
def Definition.ofText? (text : String) : Option Definition :=
  (Tree.read? text.toList).bind ofItems?

/-- What a module of the given text does, if the text has a meaning here. -/
def meaningOf? (text : String) : Option Meaning := (Definition.ofText? text).bind (·.meaning?)

end StagedSandbox.Wasm
