import StagedSandbox.Proofs.Wasm.Reader
import StagedSandbox.Wasm.Linked

/-!
# Texts of linked programs

The written form of a linked program is read line by line, and stands for a module whose parts are
those of the program (`Linked.ofText?_render`): its segments, a function that writes a buffer, and
an entry function that carries the steps out.
-/

namespace StagedSandbox.Wasm.Linked

open Reader

/-! ### The module of a program -/

/-- The imports of a program. -/
def imports (l : Linked) : List (String × Wasi.FunctionType) :=
  [("fd_write", ⟨[.i32, .i32, .i32, .i32], [.i32]⟩), ("proc_exit", ⟨[.i32], []⟩)] ++
    if l.raises then [("proc_raise", ⟨[.i32], [.i32]⟩)] else []

/-- The function that passes a buffer to `fd_write`. -/
def writeFunction : Function where
  type := ⟨[.i32, .i32], []⟩
  body := [.const 0, .parameter 0, .store, .const 4, .parameter 1, .store,
    .const 1, .const 0, .const 1, .const 8, .call 0, .drop]

/-- The code of a step, given the index of the function that writes a buffer. -/
def actionCode (writer : Nat) : Action → List Instruction
  | .write address length =>
    [.const (UInt32.ofNat address), .const (UInt32.ofNat length), .call writer]
  | .exit code => [.const (UInt32.ofInt code.toInt), .call 1]
  | .abort => [.const 6, .call 2, .drop, .unreachable]

/-- The entry function, which exits with code zero after the last step. -/
def entryFunction (l : Linked) : Function where
  type := ⟨[], []⟩
  body := l.actions.flatMap (actionCode l.imports.length) ++ [.const 0, .call 1]

/-- The module that the written form of a program stands for. -/
def definition (l : Linked) : Definition where
  imports := l.imports
  pages := some l.pages
  segments := l.segments
  functions := [writeFunction, l.entryFunction]
  entry := some (l.imports.length + 1)

/-! ### The lists in the text -/

def constTree (text : String) : Tree := .list [.word "i32.const", .word text]

def callTree (name : String) (operands : List Tree) : Tree :=
  .list (.word "call" :: .word name :: operands)

def exportTree (name : String) : Tree := .list [.word "export", .string (Bytes.ofText name).list]

def importTree (name called : String) (type : List Tree) : Tree :=
  .list [.word "import", .string (Bytes.ofText Wasi.Import.moduleName).list,
    .string (Bytes.ofText name).list, .list (.word "func" :: .word called :: type)]

def importTrees : List Tree :=
  [importTree "fd_write" "$fd_write"
    [.list [.word "param", .word "i32", .word "i32", .word "i32", .word "i32"],
      .list [.word "result", .word "i32"]],
    importTree "proc_exit" "$proc_exit" [.list [.word "param", .word "i32"]]]

def raiseTree : Tree :=
  importTree "proc_raise" "$proc_raise"
    [.list [.word "param", .word "i32"], .list [.word "result", .word "i32"]]

def memoryTree (pages : Nat) : Tree :=
  .list [.word "memory", exportTree "memory", .word (Text.decimal pages)]

def segmentTree (segment : Nat × Bytes) : Tree :=
  .list [.word "data", constTree (Text.decimal segment.1), .string segment.2.list]

def storeTree (address name : String) : Tree :=
  .list [.word "i32.store", constTree address, .list [.word "local.get", .word name]]

def writeTree : Tree :=
  .list [.word "func", .word "$write", .list [.word "param", .word "$ptr", .word "i32"],
    .list [.word "param", .word "$len", .word "i32"], storeTree "0" "$ptr", storeTree "4" "$len",
    .list [.word "drop",
      callTree "$fd_write" [constTree "1", constTree "0", constTree "1", constTree "8"]]]

def actionTrees : Action → List Tree
  | .write address length =>
    [callTree "$write" [constTree (Text.decimal address), constTree (Text.decimal length)]]
  | .exit code => [callTree "$proc_exit" [constTree (Text.signed code.toInt)]]
  | .abort =>
    [.list [.word "drop", callTree "$proc_raise" [constTree "6"]], .list [.word "unreachable"]]

def entryTree (actions : List Action) : Tree :=
  .list (.word "func" :: exportTree "_start" ::
    (actions.flatMap actionTrees ++ [callTree "$proc_exit" [constTree "0"]]))

/-- The fields of the module. -/
def fieldTrees (l : Linked) : List Tree :=
  importTrees ++ (if l.raises then [raiseTree] else []) ++ [memoryTree l.pages] ++
    l.segments.map segmentTree ++ [writeTree, entryTree l.actions]

/-! ### Reading the lines -/

/-- Lines, each with a line break behind it, as characters. -/
def chars (lines : List String) : List Char := lines.flatMap fun line => (line ++ "\n").toList

theorem toList_render (l : Linked) : l.render.toList = chars l.renderLines := by
  rw [render]
  induction l.renderLines with
  | nil => rfl
  | cons line rest ih =>
    rw [List.map_cons, String.join_cons, String.toList_append, ih]
    rfl

theorem chars_singleton (line : String) : chars [line] = line.toList ++ ['\n'] := by
  rw [chars, List.flatMap_singleton, String.toList_append]
  rfl

theorem chars_append (lines more : List String) :
    chars (lines ++ more) = chars lines ++ chars more := List.flatMap_append

theorem chars_flatMap {α : Type} (list : List α) (lines : α → List String) :
    chars (list.flatMap lines) = list.flatMap fun a => chars (lines a) := List.flatMap_assoc

section FixedLines

set_option maxRecDepth 4000

theorem adds_importLines : Adds (chars importLines.tail) importTrees := fun _ _ => rfl

theorem adds_raiseLine : Adds (chars [raiseLine]) [raiseTree] := fun _ _ => rfl

theorem adds_writeLines : Adds (chars writeLines) [writeTree] := fun _ _ => rfl

end FixedLines

/-- A constant is read from its number. -/
theorem adds_const (n : Int) :
    Adds ("(i32.const ".toList ++ ((Text.signed n).toList ++ [')']))
      [constTree (Text.signed n)] := by
  intro items outer
  have hfront : feed ⟨items, outer, .between⟩ "(i32.const ".toList =
      some ⟨[.word "i32.const"], items :: outer, .between⟩ := rfl
  rw [feed_append, hfront, Option.bind_some, feed_append, feed_signed, Option.bind_some,
    feed_close, List.reverse_reverse, String.ofList_toList]
  rfl

theorem adds_memoryLine (pages : Nat) : Adds (chars [memoryLine pages]) [memoryTree pages] := by
  intro items outer
  have hchars : chars [memoryLine pages] = "  (memory (export \"memory\") ".toList ++
      ((Text.decimal pages).toList ++ ([')'] ++ ['\n'])) := by
    rw [chars_singleton]
    unfold memoryLine
    simp only [String.toList_append, List.append_assoc]
    rfl
  have hfront : feed ⟨items, outer, .between⟩ "  (memory (export \"memory\") ".toList =
      some ⟨[exportTree "memory", .word "memory"], items :: outer, .between⟩ := rfl
  rw [hchars, feed_append, hfront, Option.bind_some, feed_append, feed_decimal, Option.bind_some,
    feed_append, feed_close, Option.bind_some, List.reverse_reverse, String.ofList_toList]
  rfl

theorem toList_escapeData (data : Bytes) :
    (escapeData data).toList = data.list.flatMap fun b => '\\' :: Text.Hex.encodeByte b := by
  rw [escapeData, String.toList_ofList]

theorem chars_segmentLine (segment : Nat × Bytes) : chars [segmentLine segment] =
    "  (data ".toList ++ (("(i32.const ".toList ++ ((Text.decimal segment.1).toList ++ [')'])) ++
      (" \"".toList ++ ((escapeData segment.2).toList ++ "\")\n".toList))) := by
  have hfront : "  (data (i32.const ".toList = "  (data ".toList ++ "(i32.const ".toList := rfl
  have hmiddle : ") \"".toList = [')'] ++ " \"".toList := rfl
  rw [chars_singleton]
  unfold segmentLine
  simp only [String.toList_append, List.append_assoc, hfront, hmiddle]
  rfl

theorem adds_segmentLine (segment : Nat × Bytes) :
    Adds (chars [segmentLine segment]) [segmentTree segment] := by
  intro items outer
  have hfront : feed ⟨items, outer, .between⟩ "  (data ".toList =
      some ⟨[.word "data"], items :: outer, .between⟩ := rfl
  have hopen (opened : List Tree) : feed ⟨opened, items :: outer, .between⟩ " \"".toList =
      some ⟨opened, items :: outer, .string []⟩ := rfl
  have hback (opened : List Tree) (soFar : List UInt8) :
      feed ⟨opened, items :: outer, .string soFar⟩ "\")\n".toList =
        some ⟨.list (.string soFar.reverse :: opened).reverse :: items, outer, .between⟩ := rfl
  rw [chars_segmentLine, feed_append, hfront, Option.bind_some, feed_append,
    show Text.decimal segment.1 = Text.signed segment.1 from rfl, adds_const, Option.bind_some,
    feed_append, hopen, Option.bind_some, feed_append, toList_escapeData, feed_escapes,
    Option.bind_some, hback, List.append_nil, List.reverse_reverse]
  rfl

theorem chars_writeLine (address length : Nat) : chars (actionLines (.write address length)) =
    "    (call $write ".toList ++
      (("(i32.const ".toList ++ ((Text.decimal address).toList ++ [')'])) ++ (" ".toList ++
        (("(i32.const ".toList ++ ((Text.decimal length).toList ++ [')'])) ++
          ")\n".toList))) := by
  have hfront : "    (call $write (i32.const ".toList =
      "    (call $write ".toList ++ "(i32.const ".toList := rfl
  have hmiddle : ") (i32.const ".toList = [')'] ++ (" ".toList ++ "(i32.const ".toList) := rfl
  have hback : "))".toList ++ ['\n'] = [')'] ++ ")\n".toList := rfl
  rw [actionLines, chars_singleton]
  simp only [String.toList_append, List.append_assoc, hfront, hmiddle, hback]

theorem chars_exitLine (code : Int32) : chars (actionLines (.exit code)) =
    "    (call $proc_exit ".toList ++ (("(i32.const ".toList ++
      ((Text.signed code.toInt).toList ++ [')'])) ++ ")\n".toList) := by
  have hfront : "    (call $proc_exit (i32.const ".toList =
      "    (call $proc_exit ".toList ++ "(i32.const ".toList := rfl
  have hback : "))".toList ++ ['\n'] = [')'] ++ ")\n".toList := rfl
  rw [actionLines, chars_singleton]
  simp only [String.toList_append, List.append_assoc, hfront, hback]

/-- The lines of a step are read. -/
theorem adds_actionLines (action : Action) :
    Adds (chars (actionLines action)) (actionTrees action) := by
  intro items outer
  have hclose (opened : List Tree) : feed ⟨opened, items :: outer, .between⟩ ")\n".toList =
      some ⟨.list opened.reverse :: items, outer, .between⟩ := rfl
  cases action with
  | abort => rfl
  | exit code =>
    have hfront : feed ⟨items, outer, .between⟩ "    (call $proc_exit ".toList =
        some ⟨[.word "$proc_exit", .word "call"], items :: outer, .between⟩ := rfl
    rw [chars_exitLine, feed_append, hfront, Option.bind_some, feed_append, adds_const,
      Option.bind_some, hclose]
    rfl
  | write address length =>
    have hfront : feed ⟨items, outer, .between⟩ "    (call $write ".toList =
        some ⟨[.word "$write", .word "call"], items :: outer, .between⟩ := rfl
    have hblank (opened : List Tree) : feed ⟨opened, items :: outer, .between⟩ " ".toList =
        some ⟨opened, items :: outer, .between⟩ := rfl
    rw [chars_writeLine, feed_append, hfront, Option.bind_some, feed_append,
      show Text.decimal address = Text.signed address from rfl, adds_const, Option.bind_some,
      feed_append, hblank, Option.bind_some, feed_append,
      show Text.decimal length = Text.signed length from rfl, adds_const, Option.bind_some, hclose]
    rfl

/-- The whole text is one list. -/
theorem read?_render (l : Linked) :
    Tree.read? l.render.toList = some (.word "module" :: l.fieldTrees) := by
  have hlines : l.renderLines = ["(module"] ++ (importLines.tail ++
      ((if l.raises then [raiseLine] else []) ++ ([memoryLine l.pages] ++
        (l.segments.map segmentLine ++ writeLines))) ++
          ([entryLine] ++ (l.actions.flatMap actionLines ++ [lastLine]))) := by
    simp only [renderLines, importLines, List.append_assoc, List.tail_cons, List.cons_append,
      List.nil_append]
  have hraise : Adds (chars (if l.raises then [raiseLine] else []))
      (if l.raises then [raiseTree] else []) := by
    split
    · exact adds_raiseLine
    · exact Adds.nil
  have hsegments : Adds (chars (l.segments.map segmentLine)) (l.segments.map segmentTree) := by
    rw [List.map_eq_flatMap, List.map_eq_flatMap, chars_flatMap]
    exact Adds.flatMap fun segment _ => adds_segmentLine segment
  have hactions : Adds (chars (l.actions.flatMap actionLines)) (l.actions.flatMap actionTrees) := by
    rw [chars_flatMap]
    exact Adds.flatMap fun action _ => adds_actionLines action
  have hfields := adds_importLines.append (hraise.append ((adds_memoryLine l.pages).append
    (hsegments.append adds_writeLines)))
  simp only [← chars_append] at hfields
  have hstart : feed {} (chars ["(module"]) = some ⟨[.word "module"], [[]], .between⟩ := rfl
  have hentry (items : List Tree) : feed ⟨items, [[]], .between⟩ (chars [entryLine]) =
      some ⟨[exportTree "_start", .word "func"], [items, []], .between⟩ := rfl
  have hlast (body items : List Tree) : feed ⟨body, [items, []], .between⟩ (chars [lastLine]) =
      some ⟨[.list (.list (callTree "$proc_exit" [constTree "0"] :: body).reverse ::
        items).reverse], [], .between⟩ := rfl
  have hfeed : feed {} l.render.toList =
      some ⟨[.list (.word "module" :: l.fieldTrees)], [], .between⟩ := by
    rw [toList_render, hlines, chars_append, feed_append, hstart, Option.bind_some, chars_append,
      feed_append, hfields, Option.bind_some, chars_append, feed_append, hentry, Option.bind_some,
      chars_append, feed_append, hactions, Option.bind_some, hlast]
    simp [fieldTrees, entryTree]
  rw [Tree.read?, hfeed]

/-! ### Reading the fields -/

/-- The numbers of a program fit into words, and it imports what it calls. -/
structure Fits (l : Linked) : Prop where
  addresses : ∀ segment ∈ l.segments, segment.1 < UInt32.size
  buffers {address length : Nat} (h : .write address length ∈ l.actions) :
    address < UInt32.size ∧ length < UInt32.size
  raises (h : .abort ∈ l.actions) : l.raises = true

/-- The names of the imports. -/
def importNames (l : Linked) : List String :=
  ["$fd_write", "$proc_exit"] ++ if l.raises then ["$proc_raise"] else []

/-- The scope of the entry function. -/
def scope (l : Linked) : Scope := ⟨l.importNames ++ ["$write"], []⟩

theorem indexOf?_write (l : Linked) :
    indexOf? l.scope.functions "$write" = some l.imports.length := by
  rw [scope, importNames, imports]
  cases l.raises <;> rfl

theorem indexOf?_exit (l : Linked) : indexOf? l.scope.functions "$proc_exit" = some 1 := by
  rw [scope, importNames]
  cases l.raises <;> rfl

theorem indexOf?_raise {l : Linked} (h : l.raises = true) :
    indexOf? l.scope.functions "$proc_raise" = some 2 := by
  rw [scope, importNames, h]
  rfl

theorem addAll_actionTrees {l : Linked} (h : l.Fits) {action : Action}
    (haction : action ∈ l.actions) (code : List Instruction) :
    l.scope.addAll code (actionTrees action) =
      some ((actionCode l.imports.length action).reverse ++ code) := by
  have hsix : word? ['6'] = some 6 := rfl
  cases action with
  | write address length =>
    obtain ⟨haddress, hlength⟩ := h.buffers haction
    simp [actionTrees, actionCode, callTree, constTree, Scope.addAll, Scope.addFolded,
      Scope.addParts, Scope.instruction?, word?_decimal haddress, word?_decimal hlength,
      l.indexOf?_write]
  | exit code =>
    simp [actionTrees, actionCode, callTree, constTree, Scope.addAll, Scope.addFolded,
      Scope.addParts, Scope.instruction?, word?_signed, l.indexOf?_exit]
  | abort =>
    simp [actionTrees, actionCode, callTree, constTree, Scope.addAll, Scope.addFolded,
      Scope.addParts, Scope.instruction?, hsix, indexOf?_raise (h.raises haction)]

theorem addAll_append (s : Scope) (code : List Instruction) (front back : List Tree) :
    s.addAll code (front ++ back) = (s.addAll code front).bind fun code => s.addAll code back := by
  induction front generalizing code with
  | nil => rfl
  | cons tree rest ih =>
    rw [List.cons_append, Scope.addAll, Scope.addAll]
    cases s.addFolded code tree with
    | none => rfl
    | some code => exact ih code

theorem addAll_actions {l : Linked} (h : l.Fits) {actions : List Action}
    (hsub : actions ⊆ l.actions) (code : List Instruction) :
    l.scope.addAll code (actions.flatMap actionTrees) =
      some ((actions.flatMap (actionCode l.imports.length)).reverse ++ code) := by
  induction actions generalizing code with
  | nil => rfl
  | cons action rest ih =>
    obtain ⟨haction, hrest⟩ := List.cons_subset.mp hsub
    rw [List.flatMap_cons, addAll_append, addAll_actionTrees h haction, Option.bind_some, ih hrest,
      List.flatMap_cons, List.reverse_append, List.append_assoc]

/-- The body of the entry function is read. -/
theorem addAll_entry {l : Linked} (h : l.Fits) :
    l.scope.addAll [] (l.actions.flatMap actionTrees ++ [callTree "$proc_exit" [constTree "0"]]) =
      some l.entryFunction.body.reverse := by
  have hzero : word? ['0'] = some 0 := rfl
  have hlast (code : List Instruction) :
      l.scope.addAll code [callTree "$proc_exit" [constTree "0"]] =
        some (.call 1 :: .const 0 :: code) := by
    simp [callTree, constTree, Scope.addAll, Scope.addFolded, Scope.addParts, Scope.instruction?,
      hzero, l.indexOf?_exit]
  rw [addAll_append, addAll_actions h (List.Subset.refl _), Option.bind_some, hlast, entryFunction,
    List.append_nil, List.reverse_append]
  rfl

theorem foldlM_segmentTree {segments : List (Nat × Bytes)}
    (h : ∀ segment ∈ segments, segment.1 < UInt32.size) (d : Definition) (names : List String) :
    (segments.map segmentTree).foldlM Draft.addField? ⟨d, names⟩ =
      some ⟨{ d with segments := segments.reverse ++ d.segments }, names⟩ := by
  induction segments generalizing d with
  | nil => rfl
  | cons segment rest ih =>
    obtain ⟨hfirst, hrest⟩ := List.forall_mem_cons.mp h
    have hadd : Draft.addField? ⟨d, names⟩ (segmentTree segment) =
        some ⟨{ d with segments := segment :: d.segments }, names⟩ := by
      simp [segmentTree, constTree, Draft.addField?, Draft.addData?, word?_decimal hfirst,
        UInt32.toNat_ofNat_of_lt' hfirst, Bytes.ofList_list]
    rw [List.map_cons, List.foldlM_cons, hadd]
    simp [ih hrest]

/-- What is exported as the entry function has neither parameters nor results. -/
theorem read?_entry (actions : List Action) :
    let body := actions.flatMap actionTrees ++ [callTree "$proc_exit" [constTree "0"]]
    Head.read? (exportTree "_start" :: body) = some ({ exported := some "_start" }, body) := by
  intro body
  cases actions with
  | nil => rfl
  | cons action rest => cases action <;> rfl

theorem addField?_entryTree {l : Linked} (h : l.Fits) {d : Definition} (hentry : d.entry = none) :
    Draft.addField? ⟨d, l.importNames ++ ["$write"]⟩ (entryTree l.actions) =
      some ⟨{ d with
        functions := d.functions ++ [l.entryFunction]
        entry := some (l.imports.length + 1) }, l.importNames ++ ["$write", ""]⟩ := by
  have hbody : Scope.addAll ⟨l.importNames ++ ["$write"], []⟩ [] _ = _ := addAll_entry h
  have hlength : (l.importNames ++ ["$write"]).length = l.imports.length + 1 := by
    rw [importNames, imports]
    cases l.raises <;> rfl
  have hread := read?_entry l.actions
  dsimp only at hread
  rw [entryTree, Draft.addField?, Draft.addFunction?, hread]
  simp [hbody, hentry, hlength, Draft.accepts, Head.type, entryFunction]

theorem ofItems?_fieldTrees {l : Linked} (h : l.Fits) :
    Definition.ofItems? (.word "module" :: l.fieldTrees) = some l.definition := by
  have himports : (importTrees ++ if l.raises then [raiseTree] else []).foldlM Draft.addField? {} =
      some ⟨{ imports := l.imports }, l.importNames⟩ := by
    rw [imports, importNames]
    cases l.raises <;> rfl
  have hmemory (d : Definition) (names : List String) (hd : d.pages = none) :
      Draft.addField? ⟨d, names⟩ (memoryTree l.pages) =
        some ⟨{ d with pages := some l.pages }, names⟩ := by
    have hname : nameOf? (Bytes.ofText "memory").list = some "memory" := rfl
    simp [memoryTree, exportTree, Draft.addField?, Draft.addMemory?, hname, hd, natural?_decimal]
  have hwrite (d : Definition) : Draft.addField? ⟨d, l.importNames⟩ writeTree =
        some ⟨{ d with functions := d.functions ++ [writeFunction] },
          l.importNames ++ ["$write"]⟩ := by
    rw [importNames]
    cases l.raises <;> rfl
  rw [Definition.ofItems?, fieldTrees]
  simp only [List.foldlM_append, himports, List.foldlM_cons, List.foldlM_nil, hmemory,
    foldlM_segmentTree h.addresses, hwrite, addField?_entryTree h, Option.bind_eq_bind,
    Option.bind_some, Option.map_some, Option.pure_def, Draft.finished]
  simp [definition]

/-- The written form of a program stands for its module. -/
theorem ofText?_render {l : Linked} (h : l.Fits) :
    Definition.ofText? l.render = some l.definition := by
  rw [Definition.ofText?, read?_render, Option.bind_some, ofItems?_fieldTrees h]

/-! ### The length of the text -/

theorem length_escapeData (data : Bytes) : (escapeData data).toList.length = 3 * data.size := by
  rw [toList_escapeData, ← Bytes.length_list]
  induction data.list with
  | nil => rfl
  | cons b rest ih =>
    rw [List.flatMap_cons, List.length_append, ih, List.length_cons]
    simp only [List.length_cons, Text.Hex.encodeByte, List.length_nil]
    omega

theorem le_length_segmentLine (segment : Nat × Bytes) :
    3 * segment.2.size ≤ (chars [segmentLine segment]).length := by
  rw [chars_segmentLine, ← length_escapeData]
  simp only [List.length_append]
  omega

/-- Each byte of data takes three characters. -/
theorem le_length_render (l : Linked) :
    3 * totalSize (·.2.size) l.segments ≤ l.render.toList.length := by
  have hsegments : ∀ segments : List (Nat × Bytes),
      3 * totalSize (·.2.size) segments ≤ (chars (segments.map segmentLine)).length := by
    intro segments
    induction segments with
    | nil => exact Nat.le_refl 0
    | cons segment rest ih =>
      have hfirst := le_length_segmentLine segment
      have hchars : chars ((segment :: rest).map segmentLine) =
          chars [segmentLine segment] ++ chars (rest.map segmentLine) := chars_append [_] _
      rw [hchars, List.length_append, totalSize]
      omega
  have hall := hsegments l.segments
  rw [toList_render, renderLines]
  simp only [chars_append, List.length_append]
  omega

end StagedSandbox.Wasm.Linked
