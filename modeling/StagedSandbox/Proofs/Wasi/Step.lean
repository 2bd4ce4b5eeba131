import StagedSandbox.Proofs.Guest.Output
import StagedSandbox.Proofs.Memory
import StagedSandbox.Wasi.Call

/-!
# Steps of a machine

What the steps that calls are made of do on a machine, as long as they stay inside the memory, and
the call by which a linked program writes a buffer to its output stream.
-/

namespace StagedSandbox

namespace Memory

/-- The word at an address. -/
def word (m : Memory) (address : Nat) : Nat := Bytes.ofLittleEndian (m.read address 4).list

/-- A memory in which a word is stored at an address. -/
def putWord (m : Memory) (address n : Nat) : Memory :=
  m.put address (Bytes.ofList (Bytes.littleEndian 4 n))

theorem size_word (n : Nat) : (Bytes.ofList (Bytes.littleEndian 4 n)).size = 4 := by
  rw [Bytes.size_ofList, Bytes.length_littleEndian]

@[simp] theorem size_putWord (m : Memory) (address n : Nat) :
    (m.putWord address n).size = m.size := rfl

theorem WellFormed.putWord {m : Memory} (h : m.WellFormed) (address n : Nat) :
    (m.putWord address n).WellFormed := h.put _ _

theorem WellFormed.word_putWord_self {m : Memory} (h : m.WellFormed) (address : Nat) {n : Nat}
    (hn : n < UInt32.size) : (m.putWord address n).word address = n := by
  have hread := h.read_put_self address (Bytes.ofList (Bytes.littleEndian 4 n))
  rw [size_word] at hread
  rw [word, Memory.putWord, hread, Bytes.list_ofList, Bytes.ofLittleEndian_littleEndian]
  exact Nat.mod_eq_of_lt hn

theorem WellFormed.read_putWord_of_apart {m : Memory} (h : m.WellFormed) {address n start : Nat}
    {length : Nat} (hapart : address + 4 ≤ start ∨ start + length ≤ address) :
    (m.putWord address n).read start length = m.read start length :=
  h.read_put_of_apart (by rwa [size_word])

theorem WellFormed.word_putWord_of_apart {m : Memory} (h : m.WellFormed) {address other n : Nat}
    (hapart : address + 4 ≤ other ∨ other + 4 ≤ address) :
    (m.putWord address n).word other = m.word other := by
  rw [word, h.read_putWord_of_apart hapart, word]

end Memory

namespace Wasi

open StagedSandbox.Action

/-! ### Loads and stores -/

theorem load_eq {m : Machine} {start length : Nat} (h : start + length ≤ m.memory.size) :
    load start length m = .ok (m.memory.read start length) m := by
  rw [load, Memory.read?, if_pos h]

theorem loadWord_eq {m : Machine} {start : Nat} (h : start + 4 ≤ m.memory.size) :
    loadWord start m = .ok (m.memory.word start) m := by
  rw [loadWord, run_bind_of_ok (load_eq h)]
  rfl

theorem checkRange_eq {m : Machine} {start length : Nat} (h : start + length ≤ m.memory.size) :
    checkRange start length m = .ok () m := if_pos h

theorem store_eq {m : Machine} {start : Nat} {data : Bytes}
    (h : start + data.size ≤ m.memory.size) :
    store start data m = .ok () { m with memory := m.memory.put start data } := by
  rw [store, run_bind_of_ok (checkRange_eq h)]
  rfl

theorem storeWord_eq {m : Machine} {start n : Nat} (h : start + 4 ≤ m.memory.size) :
    storeWord start n m = .ok () { m with memory := m.memory.putWord start n } :=
  store_eq (by rwa [Memory.size_word])

theorem advance_eq {start distance : Nat} (h : start + distance < UInt32.size) :
    advance start distance = pure (start + distance) := if_pos h

theorem word_eq {n : Nat} (h : n < UInt32.size) : word n = pure n := if_pos h

/-! ### Writing a buffer -/

/-- An array of one buffer. -/
theorem buffers_one {m : Machine} {array : Nat} (hword : array + 4 < UInt32.size)
    (h : array + 8 ≤ m.memory.size) :
    buffers array 0 1 m = .ok [(m.memory.word array, m.memory.word (array + 4))] m := by
  rw [buffers, Nat.mul_zero, advance_eq (show array + 0 < UInt32.size by omega), Nat.add_zero,
    pure_bind, run_bind_of_ok (loadWord_eq (by omega)), advance_eq hword, pure_bind,
    run_bind_of_ok (loadWord_eq (by omega))]
  rfl

theorem gather_one {m : Machine} {start length : Nat} (h : start + length ≤ m.memory.size) :
    gather ByteArray.empty [(start, length)] m = .ok (m.memory.read start length) m := by
  rw [gather, run_bind_of_ok (load_eq h), gather, ByteArray.empty_append]
  rfl

/-- A call whose step fails answers with the code of the error. -/
theorem perform_of_error {c : Call} {m m' : Machine} {e : Errno}
    (h : memoryStep c m = .error e m') : perform c m = (.returned e.number, m') := by
  cases c with
  | procExit | procRaise | schedYield | pollOneoff => cases h
  | _ =>
    rw [perform.eq_def]
    simp only [h]

/-- A call that needs the memory, and whose step succeeds, answers with zero. -/
theorem perform_of_ok {c : Call} {m m' : Machine} (hc : outcomeWithoutMemory c = none)
    (h : memoryStep c m = .ok () m') : perform c m = (.returned 0, m') := by
  cases c with
  | procExit | procRaise | schedYield | pollOneoff => cases hc
  | _ =>
    rw [perform.eq_def]
    simp only [h]

theorem ok_of_perform {c : Call} {m m' : Machine} (hc : outcomeWithoutMemory c = none)
    (h : perform c m = (.returned 0, m')) : memoryStep c m = .ok () m' := by
  cases hrun : memoryStep c m with
  | ok _ m'' =>
    rw [perform_of_ok hc hrun] at h
    rw [(Prod.mk.inj h).2]
  | error e m'' =>
    rw [perform_of_error hrun] at h
    exact absurd (Outcome.returned.inj (Prod.mk.inj h).1) e.number_ne_zero

/-- A call that succeeds without the memory ends in the same way with one. -/
theorem perform_of_performWithoutMemory {c : Call} {outcome : Outcome}
    (h : performWithoutMemory c = .ok outcome) (m : Machine) : perform c m = (outcome, m) := by
  cases c with
  | procExit | procRaise | schedYield | pollOneoff =>
    cases h
    rfl
  | _ => cases h

/-- Writing one buffer to the output stream shows its bytes, and stores their number. -/
theorem perform_fdWrite {m : Machine} {fd array resultAt : UInt32} {start length : Nat}
    (hout : m.guest.descriptors.get? fd.toNat = some .stdout)
    (hword : array.toNat + 4 < UInt32.size) (harray : array.toNat + 8 ≤ m.memory.size)
    (hstart : m.memory.word array.toNat = start)
    (hlength : m.memory.word (array.toNat + 4) = length) (hlengthWord : length < UInt32.size)
    (hrange : start + length ≤ m.memory.size) (hresult : resultAt.toNat + 4 ≤ m.memory.size) :
    perform (.fdWrite fd array 1 resultAt) m =
      (.returned 0, ⟨m.memory.putWord resultAt.toNat length,
        m.guest.wrote (m.memory.read start length)⟩) := by
  have hbuffers := buffers_one hword harray
  rw [hstart, hlength] at hbuffers
  have hgather := gather_one hrange
  have hsize : (m.memory.read start length).size = length := m.memory.size_read start length
  have hwrite : onGuest (Guest.write fd.toNat (m.memory.read start length)) m =
      .ok length { m with guest := m.guest.wrote (m.memory.read start length) } := by
    rw [onGuest, Guest.write_stdout hout, hsize]
  have hstep : memoryStep (.fdWrite fd array 1 resultAt) m =
      .ok () ⟨m.memory.putWord resultAt.toNat length,
        m.guest.wrote (m.memory.read start length)⟩ := by
    rw [memoryStep, show (1 : UInt32).toNat = 1 from rfl, run_bind_of_ok hbuffers,
      run_bind_of_ok hgather, run_bind_of_ok hwrite, word_eq hlengthWord, pure_bind]
    exact storeWord_eq hresult
  exact perform_of_ok rfl hstep

end Wasi

end StagedSandbox
