import StagedSandbox.Proofs.Memory
import StagedSandbox.Wasm.Code
import StagedSandbox.Wasm.Linked

/-!
# Layout of linked programs

The data of a program lies from an address on, one piece after the other, and the memory it starts
with holds each piece. A program whose data fits into the most pages always has such a memory.
-/

namespace StagedSandbox

/-- A memory holds the data of segments. -/
def Memory.Holds (m : Memory) (segments : List (Nat × Bytes)) : Prop :=
  ∀ segment ∈ segments, m.read segment.1 segment.2.size = segment.2

namespace Wasm.Linked

/-! ### Where the data lies -/

theorem dataSize_write_cons (data : Bytes) (rest : List Op) :
    dataSize (.write data :: rest) = data.size + dataSize rest := rfl

theorem dataSize_exit_cons (code : Int32) (rest : List Op) :
    dataSize (.exit code :: rest) = dataSize rest := rfl

theorem dataSize_abort_cons (rest : List Op) : dataSize (.abort :: rest) = dataSize rest := rfl

/-- Every piece lies between the address and the end of all data, and none is empty. -/
theorem mem_placeData {address : Nat} {ops : List Op} {segment : Nat × Bytes}
    (h : segment ∈ placeData address ops) :
    address ≤ segment.1 ∧ segment.1 + segment.2.size ≤ address + dataSize ops ∧
      segment.2.size ≠ 0 := by
  induction ops generalizing address with
  | nil => exact absurd h List.not_mem_nil
  | cons op rest ih =>
    cases op with
    | exit code =>
      rw [dataSize_exit_cons]
      exact ih h
    | abort =>
      rw [dataSize_abort_cons]
      exact ih h
    | write data =>
      rw [placeData] at h
      rw [dataSize_write_cons]
      split at h
      · obtain ⟨hlow, hhigh, hne⟩ := ih h
        exact ⟨hlow, by omega, hne⟩
      · next hne =>
        obtain rfl | h := List.mem_cons.1 h
        · exact ⟨Nat.le_refl _, by simp only; omega, hne⟩
        · obtain ⟨hlow, hhigh, hne'⟩ := ih h
          exact ⟨by omega, by omega, hne'⟩

theorem sum_placeData (address : Nat) (ops : List Op) :
    totalSize (·.2.size) (placeData address ops) = dataSize ops := by
  induction ops generalizing address with
  | nil => rfl
  | cons op rest ih =>
    cases op with
    | exit code =>
      rw [dataSize_exit_cons]
      exact ih address
    | abort =>
      rw [dataSize_abort_cons]
      exact ih address
    | write data =>
      rw [dataSize_write_cons, placeData]
      split
      · next hempty => rw [ih, hempty, Nat.zero_add]
      · rw [totalSize, ih]

/-- The buffer that a step writes. -/
def Action.buffer? : Action → Option (Nat × Nat)
  | .write address length => some (address, length)
  | _ => none

/-- Each write of the program passes the place of its data. -/
theorem filterMap_placeActions (address : Nat) (ops : List Op) :
    (placeActions address ops).filterMap Action.buffer? =
      (placeData address ops).map fun segment => (segment.1, segment.2.size) := by
  induction ops generalizing address with
  | nil => rfl
  | cons op rest ih =>
    cases op with
    | exit code => exact ih address
    | abort => exact ih address
    | write data =>
      rw [placeActions, placeData]
      split
      · exact ih address
      · simp only [List.filterMap_cons, Action.buffer?, ih, List.map_cons]

theorem mem_placeActions {address start length : Nat} {ops : List Op}
    (h : .write start length ∈ placeActions address ops) :
    address ≤ start ∧ start + length ≤ address + dataSize ops ∧ length ≠ 0 := by
  have hbuffer : (start, length) ∈ (placeActions address ops).filterMap Action.buffer? :=
    List.mem_filterMap.mpr ⟨_, h, rfl⟩
  rw [filterMap_placeActions] at hbuffer
  obtain ⟨segment, hsegment, heq⟩ := List.mem_map.mp hbuffer
  obtain ⟨rfl, rfl⟩ := Prod.mk.inj heq
  exact mem_placeData hsegment

theorem mem_of_abort_mem_placeActions {address : Nat} {ops : List Op}
    (h : .abort ∈ placeActions address ops) : .abort ∈ ops := by
  induction ops generalizing address with
  | nil => exact absurd h List.not_mem_nil
  | cons op rest ih =>
    cases op with
    | abort => exact List.mem_cons_self
    | exit code =>
      rcases List.mem_cons.mp h with hfirst | hrest
      · cases hfirst
      · exact List.mem_cons_of_mem _ (ih hrest)
    | write data =>
      rw [placeActions] at h
      split at h
      · exact List.mem_cons_of_mem _ (ih h)
      · rcases List.mem_cons.mp h with hfirst | hrest
        · cases hfirst
        · exact List.mem_cons_of_mem _ (ih hrest)

/-! ### The memory in the beginning -/

/-- The memory that a program starts with. -/
def memory? (l : Linked) : Option Memory := initialMemory? l.pages l.segments

/-- Data that fits into a memory is loaded; what lies before it stays. -/
theorem foldlM_load {ops : List Op} {address : Nat} {m : Memory} (hm : m.WellFormed)
    (hsize : address + dataSize ops ≤ m.size) :
    ∃ m', (placeData address ops).foldlM load m = some m' ∧ m'.WellFormed ∧ m'.size = m.size ∧
      m'.Holds (placeData address ops) ∧
      ∀ start length, start + length ≤ address → m'.read start length = m.read start length := by
  induction ops generalizing address m with
  | nil => exact ⟨m, rfl, hm, rfl, fun _ h => absurd h List.not_mem_nil, fun _ _ _ => rfl⟩
  | cons op rest ih =>
    cases op with
    | exit code =>
      rw [dataSize_exit_cons] at hsize
      exact ih hm hsize
    | abort =>
      rw [dataSize_abort_cons] at hsize
      exact ih hm hsize
    | write data =>
      rw [dataSize_write_cons] at hsize
      rw [placeData]
      split
      · exact ih hm (by omega)
      · obtain ⟨m', hload, hm', hsize', hholds, hbefore⟩ :=
          @ih (address + data.size) _ (hm.put address data) (by rw [Memory.size_put]; omega)
        refine ⟨m', ?_, hm', hsize', ?_, ?_⟩
        · rw [List.foldlM_cons, load, if_pos (by simp only; omega)]
          exact hload
        · intro segment hsegment
          obtain rfl | hsegment := List.mem_cons.1 hsegment
          · rw [hbefore _ _ (Nat.le_refl _)]
            exact hm.read_put_self address data
          · exact hholds segment hsegment
        · intro start length hrange
          rw [hbefore _ _ (by omega), hm.read_put_of_apart (.inr hrange)]

end Wasm.Linked

end StagedSandbox
