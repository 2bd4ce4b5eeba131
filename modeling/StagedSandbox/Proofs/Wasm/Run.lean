import StagedSandbox.Proofs.Object.Meaning
import StagedSandbox.Proofs.Wasi.Step
import StagedSandbox.Proofs.Wasm.Layout
import StagedSandbox.Proofs.Wasm.LinkedText

/-!
# Linked programs run

The text of a linked program means that the program does what its operations say
(`Linked.meaningOf?_render`): it writes the bytes that they write before one of them ends it, and
it ends in that way. The invariant of the run is that the memory holds the data of the operations
still to come, which lies beyond the words that each write stores.
-/

namespace StagedSandbox.Wasm.Linked

open StagedSandbox.Action
open Wasi (Machine)
open Wasi.Import

/-! ### The routines of a program -/

/-- The routine of an import. -/
def routineOf (i : Wasi.Import) : Routine :=
  ⟨i.type, fun arguments =>
    performImport (i.call (arguments.map fun n => (n.toNat : Int))) i.type.results⟩

def fdWrite : Routine :=
  routineOf (ofWords 4 fun a => .fdWrite (word a 0) (word a 1) (word a 2) (word a 3))

def procExit : Routine := routineOf ⟨⟨[.i32], []⟩, fun a => .procExit (number a 0)⟩

def procRaise : Routine := routineOf (ofWords 1 fun a => .procRaise (number a 0))

/-- The routines of the imports of a program. -/
def importRoutines (l : Linked) : List Routine :=
  [fdWrite, procExit] ++ if l.raises then [procRaise] else []

/-- All routines that the entry function can call. -/
def routines (l : Linked) : List Routine :=
  l.importRoutines ++ [⟨writeFunction.type, writeFunction.run l.importRoutines⟩]

/-- The routine that starts a program. -/
def entryRoutine (l : Linked) : Routine := ⟨⟨[], []⟩, l.entryFunction.run l.routines⟩

theorem mapM_importRoutine? (l : Linked) :
    l.imports.mapM (fun i => importRoutine? i.1 i.2) = some l.importRoutines := by
  rw [imports, importRoutines]
  cases l.raises <;> rfl

theorem addRoutine_writeFunction (l : Linked) :
    addRoutine l.importRoutines writeFunction = some l.routines := by
  have hvalid : writeFunction.isValid (l.importRoutines.map Routine.type) = true := by
    rw [importRoutines]
    cases l.raises <;> rfl
  rw [addRoutine, if_pos hvalid]
  rfl

theorem check_actions {l : Linked} (h : l.Fits) {actions : List Action}
    (hsub : actions ⊆ l.actions) :
    (actions.flatMap (actionCode l.imports.length)).foldlM
      (Instruction.check (l.routines.map Routine.type) []) [] = some [] := by
  have htypes : l.routines.map Routine.type = l.imports.map Prod.snd ++ [⟨[.i32, .i32], []⟩] := by
    rw [routines, importRoutines, imports]
    cases l.raises <;> rfl
  induction actions with
  | nil => rfl
  | cons action rest ih =>
    obtain ⟨haction, hrest⟩ := List.cons_subset.mp hsub
    have hfirst : (actionCode l.imports.length action).foldlM
        (Instruction.check (l.routines.map Routine.type) []) [] = some [] := by
      rw [htypes]
      cases action with
      | write address length =>
        rw [imports]
        cases l.raises <;> rfl
      | exit code =>
        rw [imports]
        cases l.raises <;> rfl
      | abort =>
        rw [imports, h.raises haction]
        rfl
    rw [List.flatMap_cons, List.foldlM_append, hfirst]
    exact ih hrest

theorem addRoutine_entryFunction {l : Linked} (h : l.Fits) :
    addRoutine l.routines l.entryFunction =
      some (l.routines ++ [l.entryRoutine]) := by
  have hlast : [Instruction.const 0, .call 1].foldlM
      (Instruction.check (l.routines.map Routine.type) []) [] = some [] := by
    rw [routines, importRoutines]
    cases l.raises <;> rfl
  have hvalid : l.entryFunction.isValid (l.routines.map Routine.type) = true := by
    rw [Function.isValid]
    simp only [entryFunction, List.foldlM_append, check_actions h (List.Subset.refl _)]
    exact decide_eq_true hlast
  rw [addRoutine, if_pos hvalid]
  rfl

/-- The module of a program means that its entry function is run on its memory. -/
theorem meaning?_definition {l : Linked} (h : l.Fits) {memory : Memory}
    (hmemory : l.memory? = some memory) :
    l.definition.meaning? = some (Definition.start memory l.entryRoutine) := by
  have hroutines : l.definition.routines? = some (l.routines ++ [l.entryRoutine]) := by
    rw [Definition.routines?, definition, mapM_importRoutine?]
    simp only [List.foldlM_cons, List.foldlM_nil, addRoutine_writeFunction,
      addRoutine_entryFunction h, Option.bind_eq_bind, Option.bind_some, Option.pure_def]
  have hlength : l.routines.length = l.imports.length + 1 := by
    rw [routines, importRoutines, imports]
    cases l.raises <;> rfl
  have hentry : l.definition.entry? (l.routines ++ [l.entryRoutine]) = some l.entryRoutine := by
    simp [Definition.entry?, definition, ← hlength, entryRoutine]
  have hpages : initialMemory? l.pages l.segments = some memory := hmemory
  rw [Definition.meaning?, hroutines]
  simp only [show l.definition.pages = some l.pages from rfl,
    show l.definition.segments = l.segments from rfl, hpages, hentry, Option.bind_eq_bind,
    Option.bind_some, Option.pure_def]

/-! ### Running a step -/

/-- The words through which buffers are passed end here. -/
def scratchSize : Nat := 12

/-- The memory after a write of the data at an address. -/
def afterWrite (m : Memory) (address length : Nat) : Memory :=
  ((m.putWord 0 address).putWord 4 length).putWord 8 length

theorem storeWord_eq {m : Machine} {address value : UInt32}
    (h : address.toNat + 4 ≤ m.memory.size) :
    storeWord address value m =
      .ok () { m with memory := m.memory.putWord address.toNat value.toNat } := if_pos h

theorem wellFormed_afterWrite {m : Memory} (h : m.WellFormed) (address length : Nat) :
    (afterWrite m address length).WellFormed :=
  ((h.putWord 0 address).putWord 4 length).putWord 8 length

@[simp] theorem size_afterWrite (m : Memory) (address length : Nat) :
    (afterWrite m address length).size = m.size := rfl

/-- A write leaves alone what lies beyond the words it stores. -/
theorem read_afterWrite {m : Memory} (h : m.WellFormed) (address length : Nat) {start : Nat}
    (hstart : scratchSize ≤ start) (count : Nat) :
    (afterWrite m address length).read start count = m.read start count := by
  have hscratch : scratchSize = 12 := rfl
  have h0 := h.putWord 0 address
  have h4 := h0.putWord 4 length
  rw [afterWrite, h4.read_putWord_of_apart (.inl (by omega)),
    h0.read_putWord_of_apart (.inl (by omega)), h.read_putWord_of_apart (.inl (by omega))]

theorem call_fdWrite {m m' : Machine} {fd array count resultAt : UInt32}
    (h : Wasi.perform (.fdWrite fd array count resultAt) m = (.returned 0, m')) :
    fdWrite.call [fd, array, count, resultAt] m = .ok [0] m' := by
  have hword (n : UInt32) : UInt32.ofInt (n.toNat : Int) = n := by
    have hn : ((n.toNat : Int) % 2 ^ 32).toNat = n.toNat := by
      have := n.toNat_lt
      omega
    rw [UInt32.ofInt, hn, UInt32.ofNat_toNat]
  have hcall : fdWrite.call [fd, array, count, resultAt] m =
      performImport (.fdWrite (.ofInt fd.toNat) (.ofInt array.toNat) (.ofInt count.toNat)
        (.ofInt resultAt.toNat)) [.i32] m := rfl
  rw [hcall, hword, hword, hword, hword, performImport, h]
  rfl

/-- The word that is passed for a number of either sign gives the number back. -/
theorem number_ofInt (code : Int32) :
    number [((UInt32.ofInt code.toInt).toNat : Int)] 0 = code := by
  have hlow := code.le_toInt
  have hhigh := code.toInt_lt
  have hword : (UInt32.ofInt code.toInt).toNat = (code.toInt % 2 ^ 32).toNat := by
    rw [UInt32.ofInt, UInt32.toNat_ofNat_of_lt']
    have hsize : UInt32.size = 2 ^ 32 := rfl
    omega
  have hmod : ((code.toInt % 2 ^ 32).toNat : Int) = code.toInt % 2 ^ 32 := by omega
  rw [number, List.getD_cons_zero, hword, hmod, Int32.ofInt_eq_iff_bmod_eq_toInt, Int.bmod_def]
  omega

theorem call_procExit (code : Int32) (m : Machine) :
    procExit.call [UInt32.ofInt code.toInt] m = .error (.stop (.exit code)) m := by
  have hcall : procExit.call [UInt32.ofInt code.toInt] m =
      performImport (.procExit (number [((UInt32.ofInt code.toInt).toNat : Int)] 0)) [] m := rfl
  rw [hcall, number_ofInt]
  rfl

/-- The function that writes a buffer shows the data that the memory holds there. -/
theorem run_writeFunction (l : Linked) {m : Memory} (hm : m.WellFormed) {g : Guest}
    {address length : UInt32} (hout : g.descriptors.get? 1 = some .stdout)
    (haddress : scratchSize ≤ address.toNat) (hrange : address.toNat + length.toNat ≤ m.size) :
    writeFunction.run l.importRoutines [address, length] ⟨m, g⟩ =
      .ok [] ⟨afterWrite m address.toNat length.toNat,
        g.wrote (m.read address.toNat length.toNat)⟩ := by
  have hscratch : scratchSize = 12 := rfl
  let passed := (m.putWord 0 address.toNat).putWord 4 length.toNat
  have hm0 := hm.putWord 0 address.toNat
  have hm4 := hm0.putWord 4 length.toNat
  have hfirst : passed.word 0 = address.toNat := by
    rw [hm0.word_putWord_of_apart (.inr (by decide)), hm.word_putWord_self 0 address.toNat_lt]
  have hsecond : passed.word 4 = length.toNat := hm0.word_putWord_self 4 length.toNat_lt
  have hread : passed.read address.toNat length.toNat = m.read address.toNat length.toNat := by
    rw [hm0.read_putWord_of_apart (.inl (by omega)), hm.read_putWord_of_apart (.inl (by omega))]
  have harray : 0 + 8 ≤ m.size := by omega
  have hresult : 8 + 4 ≤ m.size := by omega
  have hperform : Wasi.perform (.fdWrite 1 0 1 8) ⟨passed, g⟩ =
      (.returned 0, ⟨afterWrite m address.toNat length.toNat,
        g.wrote (passed.read address.toNat length.toNat)⟩) :=
    Wasi.perform_fdWrite hout (by decide) harray hfirst hsecond length.toNat_lt hrange hresult
  rw [hread] at hperform
  have haddressStore : storeWord 0 address ⟨m, g⟩ = .ok () ⟨m.putWord 0 address.toNat, g⟩ :=
    storeWord_eq (Nat.le_trans (by decide) hresult)
  have hlengthStore : storeWord 4 length ⟨m.putWord 0 address.toNat, g⟩ = .ok () ⟨passed, g⟩ :=
    storeWord_eq (Nat.le_trans (by decide) harray)
  have himport : l.importRoutines[0]? = some fdWrite := rfl
  simp only [Function.run, writeFunction, List.foldlM_cons, List.foldlM_nil, Instruction.run,
    bind_assoc, pure_bind, himport]
  refine (run_bind_of_ok haddressStore _).trans ?_
  refine (run_bind_of_ok hlengthStore _).trans ?_
  exact run_bind_of_ok (call_fdWrite hperform) _

/-! ### Running the steps -/

section Steps

variable {l : Linked} {m : Memory} {g : Guest}

/-- The code of an exit stops the program, -/
theorem run_exit (code : Int32) (rest : List Instruction) :
    (actionCode l.imports.length (.exit code) ++ rest).foldlM (Instruction.run l.routines []) []
      ⟨m, g⟩ = .error (.stop (.exit code)) ⟨m, g⟩ := by
  have hroutine : l.routines[1]? = some procExit := rfl
  simp only [actionCode, List.cons_append, List.nil_append, List.foldlM_cons, Instruction.run,
    bind_assoc, pure_bind, hroutine]
  exact run_bind_of_error (call_procExit code ⟨m, g⟩) _

/-- and so does that of an abort. -/
theorem run_abort (hraises : l.raises = true) (rest : List Instruction) :
    (actionCode l.imports.length .abort ++ rest).foldlM (Instruction.run l.routines []) []
      ⟨m, g⟩ = .error (.stop (.kill abortSignal)) ⟨m, g⟩ := by
  have hroutine : l.routines[2]? = some procRaise := by
    rw [routines, importRoutines, hraises]
    rfl
  have hcall : procRaise.call [6] ⟨m, g⟩ = .error (.stop (.kill abortSignal)) ⟨m, g⟩ := rfl
  simp only [actionCode, List.cons_append, List.nil_append, List.foldlM_cons, Instruction.run,
    bind_assoc, pure_bind, hroutine]
  exact run_bind_of_error hcall _

/-- The code of a write shows the data that the memory holds at its address. -/
theorem run_write (hm : m.WellFormed) {address length : Nat}
    (hout : g.descriptors.get? 1 = some .stdout) (haddress : scratchSize ≤ address)
    (hrange : address + length ≤ m.size) (hsize : m.size ≤ UInt32.size) (hlength : length ≠ 0)
    (rest : List Instruction) :
    (actionCode l.imports.length (.write address length) ++ rest).foldlM
        (Instruction.run l.routines []) [] ⟨m, g⟩ =
      rest.foldlM (Instruction.run l.routines []) []
        ⟨afterWrite m address length, g.wrote (m.read address length)⟩ := by
  have hroutine : l.routines[l.imports.length]? =
      some ⟨writeFunction.type, writeFunction.run l.importRoutines⟩ := by
    rw [routines, importRoutines, imports]
    cases l.raises <;> rfl
  have hscratch : scratchSize = 12 := rfl
  have hfirst := UInt32.toNat_ofNat_of_lt' (show address < UInt32.size by omega)
  have hsecond := UInt32.toNat_ofNat_of_lt' (show length < UInt32.size by omega)
  have hrun : writeFunction.run l.importRoutines [.ofNat address, .ofNat length] ⟨m, g⟩ = _ :=
    l.run_writeFunction hm hout (by rwa [hfirst]) (by rwa [hfirst, hsecond])
  rw [hfirst, hsecond] at hrun
  simp only [actionCode, List.cons_append, List.nil_append, List.foldlM_cons, Instruction.run,
    bind_assoc, pure_bind, hroutine]
  exact run_bind_of_ok hrun _

/-- The code of operations runs to the operation that ends it, or to the last exit. The invariant
is that the memory holds the data of the operations still to come. -/
theorem run_placeActions {ops : List Op} {address : Nat} (hm : m.WellFormed)
    (hout : g.descriptors.get? 1 = some .stdout) (hheld : Text.Utf8.Holds g.heldOut)
    (haddress : scratchSize ≤ address) (hdata : address + dataSize ops ≤ m.size)
    (hsize : m.size ≤ UInt32.size)
    (hraises : .abort ∈ ops → l.raises = true) (hholds : m.Holds (placeData address ops)) :
    ∃ m', ((placeActions address ops).flatMap (actionCode l.imports.length) ++
        [Instruction.const 0, .call 1]).foldlM (Instruction.run l.routines []) [] ⟨m, g⟩ =
      .error (.stop (Op.stop ops)) ⟨m', g.wrote (Op.written ops)⟩ := by
  induction ops generalizing address m g with
  | nil =>
    rw [Op.written, Guest.wrote_empty hheld]
    exact ⟨m, run_exit 0 []⟩
  | cons op rest ih =>
    cases op with
    | exit code =>
      rw [Op.written, Guest.wrote_empty hheld, placeActions, List.flatMap_cons, List.append_assoc]
      exact ⟨m, run_exit code _⟩
    | abort =>
      rw [Op.written, Guest.wrote_empty hheld, placeActions, List.flatMap_cons, List.append_assoc]
      exact ⟨m, run_abort (hraises List.mem_cons_self) _⟩
    | write data =>
      have hlater (h : .abort ∈ rest) : l.raises = true := hraises (List.mem_cons_of_mem _ h)
      rw [dataSize_write_cons] at hdata
      rw [placeActions]
      rw [placeData] at hholds
      split
      · next hempty =>
        obtain rfl : data = ByteArray.empty := ByteArray.size_eq_zero_iff.1 hempty
        rw [if_pos hempty] at hholds
        rw [Op.written, ByteArray.empty_append]
        exact ih hm hout hheld haddress (by omega) hsize hlater hholds
      · next hne =>
        rw [if_neg hne] at hholds
        have hread : m.read address data.size = data := hholds _ List.mem_cons_self
        have hrest : (afterWrite m address data.size).Holds
            (placeData (address + data.size) rest) := by
          intro segment hsegment
          have hlow := (mem_placeData hsegment).1
          rw [read_afterWrite hm _ _ (by omega)]
          exact hholds segment (List.mem_cons_of_mem _ hsegment)
        rw [List.flatMap_cons, List.append_assoc,
          run_write hm hout haddress (by omega) hsize hne, hread, Op.written, Guest.wrote_append]
        exact ih (wellFormed_afterWrite hm address data.size) hout (Guest.holds_wrote g data)
          (by omega) (by rw [size_afterWrite]; omega) hsize hlater hrest

end Steps

/-! ### Whole programs -/

/-- The pages of a program hold all its data. -/
theorem le_pagesFor_mul (size : Nat) : size ≤ pagesFor size * Memory.pageSize := by
  have hpage : Memory.pageSize = 65536 := rfl
  have hle : (size + Memory.pageSize - 1) / Memory.pageSize ≤ pagesFor size := Nat.le_max_right _ _
  have := Nat.mul_le_mul_right Memory.pageSize hle
  rw [hpage] at this ⊢
  omega

theorem pagesFor_le {size : Nat} (h : size ≤ maxPages * Memory.pageSize) :
    pagesFor size ≤ maxPages := by
  have hpage : Memory.pageSize = 65536 := rfl
  have hmax : maxPages = 65536 := rfl
  rw [hmax, hpage] at h
  rw [pagesFor, hmax, hpage]
  omega

/-- Data that fits into the most pages is loaded into the memory of the program. -/
theorem memory?_ofOps {ops : List Op}
    (h : dataBase + dataSize ops ≤ maxPages * Memory.pageSize) :
    ∃ m, (ofOps ops).memory? = some m ∧ m.WellFormed ∧
      m.size = (ofOps ops).pages * Memory.pageSize ∧ m.Holds (placeData dataBase ops) := by
  have hfits : dataBase + dataSize ops ≤ (Memory.ofPages (ofOps ops).pages).size :=
    le_pagesFor_mul _
  obtain ⟨m, hload, hm, hsize, hholds, -⟩ := foldlM_load (Memory.wellFormed_ofPages _) hfits
  refine ⟨m, ?_, hm, hsize, hholds⟩
  rw [memory?, initialMemory?, if_pos (show (ofOps ops).pages ≤ maxPages from pagesFor_le h)]
  exact hload

/-- A program whose text is not too large for a file has data that fits into the most pages. -/
theorem dataSize_le_of_size_render {ops : List Op}
    (h : (Bytes.ofText (ofOps ops).render).size ≤ Fs.maxFileSize) :
    dataBase + dataSize ops ≤ maxPages * Memory.pageSize := by
  have hrender := (ofOps ops).le_length_render
  rw [show (ofOps ops).segments = placeData dataBase ops from rfl, sum_placeData] at hrender
  have hlength := Bytes.length_le_size_ofText (ofOps ops).render
  have hbase : dataBase = 1024 := rfl
  have hpages : maxPages * Memory.pageSize = 2 ^ 32 := rfl
  have hmax : Fs.maxFileSize ≤ 2 ^ 30 := by decide
  omega

theorem fits_ofOps {ops : List Op} (h : dataBase + dataSize ops ≤ maxPages * Memory.pageSize) :
    (ofOps ops).Fits := by
  have hbase : dataBase = 1024 := rfl
  have hword : UInt32.size = maxPages * Memory.pageSize := rfl
  constructor
  case addresses =>
    intro segment hsegment
    obtain ⟨-, hend, hne⟩ := mem_placeData hsegment
    omega
  case buffers =>
    intro address length haction
    obtain ⟨hstart, hend, hne⟩ := mem_placeActions haction
    omega
  case raises =>
    intro haction
    exact List.contains_iff_mem.mpr (mem_of_abort_mem_placeActions haction)

/-- The text of a program means that it does what its operations say. -/
theorem meaningOf?_render {ops : List Op}
    (h : dataBase + dataSize ops ≤ maxPages * Memory.pageSize) :
    ∃ meaning, meaningOf? (ofOps ops).render = some meaning ∧ ∀ g : Guest,
      g.descriptors.get? 1 = some .stdout → Text.Utf8.Holds g.heldOut →
        meaning g = (.error (.stop (Op.stop ops)), g.wrote (Op.written ops)) := by
  have hfits := fits_ofOps h
  obtain ⟨m, hmemory, hm, hsize, hholds⟩ := memory?_ofOps h
  have hmeaning : meaningOf? (ofOps ops).render =
      some (Definition.start m (ofOps ops).entryRoutine) := by
    rw [meaningOf?, ofText?_render hfits, Option.bind_some, meaning?_definition hfits hmemory]
  refine ⟨_, hmeaning, fun g hout hheld => ?_⟩
  have hdata : dataBase + dataSize ops ≤ m.size := by
    rw [hsize]
    exact le_pagesFor_mul _
  have hword : m.size ≤ UInt32.size := by
    rw [hsize]
    exact Nat.mul_le_mul_right Memory.pageSize (pagesFor_le h)
  obtain ⟨m', hrun⟩ := run_placeActions (l := ofOps ops) hm hout hheld
    (show scratchSize ≤ dataBase by decide) hdata hword
    (fun hmem => List.contains_iff_mem.mpr hmem) hholds
  have hcall : (ofOps ops).entryRoutine.call [] ⟨m, g⟩ =
      .error (.stop (Op.stop ops)) ⟨m', g.wrote (Op.written ops)⟩ := run_bind_of_error hrun _
  rw [Definition.start, hcall]

end StagedSandbox.Wasm.Linked
