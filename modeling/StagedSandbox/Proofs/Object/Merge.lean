import Mathlib.Data.List.Chain
import StagedSandbox.Wasm.Linked

/-!
# Merged writes

Merging writes leaves no two of them next to each other (`Op.merged_mergeWrites`), and what is
written between the other operations stays the same (`Op.sections_mergeWrites`). Operations that
are merged already are left as they are, so that merging twice is merging once.
-/

namespace StagedSandbox

namespace Op

def IsWrite : Op → Prop
  | .write _ => True
  | _ => False

/-- No two writes follow each other. -/
def Merged (ops : List Op) : Prop :=
  ops.IsChain fun first second => ¬ (first.IsWrite ∧ second.IsWrite)

/-- The bytes that are written before the first other operation, and each other operation with the
bytes that are written between it and the next one. -/
def sections : List Op → Bytes × List (Op × Bytes)
  | [] => (ByteArray.empty, [])
  | .write data :: rest => (data ++ (sections rest).1, (sections rest).2)
  | op :: rest => (ByteArray.empty, (op, (sections rest).1) :: (sections rest).2)

variable {op : Op} {rest : List Op}

/-- An operation is put in front of others as it is, unless it is a write in front of a write. -/
theorem mergeCons_cases (op : Op) (rest : List Op) :
    (mergeCons op rest = op :: rest ∧ ∀ next ∈ rest.head?, ¬ (op.IsWrite ∧ next.IsWrite)) ∨
      ∃ first second more, op = .write first ∧ rest = .write second :: more ∧
        mergeCons op rest = .write (first ++ second) :: more := by
  cases op with
  | exit code => exact .inl ⟨rfl, fun _ _ h => h.1⟩
  | abort => exact .inl ⟨rfl, fun _ _ h => h.1⟩
  | write first =>
    match rest with
    | [] => exact .inl ⟨rfl, nofun⟩
    | .write second :: more => exact .inr ⟨first, second, more, rfl, rfl, rfl⟩
    | .exit code :: more =>
      refine .inl ⟨rfl, fun next hnext h => ?_⟩
      obtain rfl := Option.some.inj hnext
      exact h.2
    | .abort :: more =>
      refine .inl ⟨rfl, fun next hnext h => ?_⟩
      obtain rfl := Option.some.inj hnext
      exact h.2

/-! ### No two writes next to each other -/

theorem merged_mergeCons (h : Merged rest) : Merged (mergeCons op rest) := by
  obtain ⟨hcons, hapart⟩ | ⟨first, second, more, -, rfl, hcons⟩ := mergeCons_cases op rest
  · rw [hcons]
    exact List.isChain_cons.2 ⟨hapart, h⟩
  · -- the merged write stands where the second one stood
    rw [hcons]
    exact List.isChain_cons.2 (List.isChain_cons.1 h)

theorem merged_mergeWrites (ops : List Op) : Merged (mergeWrites ops) := by
  induction ops with
  | nil => exact List.isChain_nil
  | cons op rest ih => exact merged_mergeCons ih

theorem mergeCons_of_merged (h : Merged (op :: rest)) : mergeCons op rest = op :: rest := by
  obtain ⟨hcons, -⟩ | ⟨first, second, more, rfl, rfl, -⟩ := mergeCons_cases op rest
  · exact hcons
  · exact absurd ⟨trivial, trivial⟩ (List.isChain_cons_cons.1 h).1

/-- Merging leaves alone what is merged already. -/
theorem mergeWrites_of_merged {ops : List Op} (h : Merged ops) : mergeWrites ops = ops := by
  induction ops with
  | nil => rfl
  | cons op rest ih =>
    rw [mergeWrites, List.foldr_cons]
    rw [← mergeWrites, ih h.tail]
    exact mergeCons_of_merged h

/-! ### What stays the same -/

theorem sections_mergeCons (op : Op) (rest : List Op) :
    sections (mergeCons op rest) = sections (op :: rest) := by
  obtain ⟨hcons, -⟩ | ⟨first, second, more, rfl, rfl, hcons⟩ := mergeCons_cases op rest
  · rw [hcons]
  · rw [hcons]
    simp only [sections, ByteArray.append_assoc]

/-- Between the other operations the same bytes are written. -/
theorem sections_mergeWrites (ops : List Op) : sections (mergeWrites ops) = sections ops := by
  induction ops with
  | nil => rfl
  | cons op rest ih =>
    rw [mergeWrites, List.foldr_cons, sections_mergeCons, ← mergeWrites]
    cases op <;> simp only [sections, ih]

end Op

namespace Wasm.Linked

/-- The number of bytes that operations write is told by what is written between the others. -/
theorem dataSize_eq (ops : List Op) :
    dataSize ops = (Op.sections ops).1.size + totalSize (·.2.size) (Op.sections ops).2 := by
  induction ops with
  | nil => rfl
  | cons op rest ih =>
    cases op with
    | write data => simp only [dataSize, Op.sections, ih, ByteArray.size_append, Nat.add_assoc]
    | exit code =>
      simp only [dataSize, Op.sections, ih, totalSize, ByteArray.size_empty, Nat.zero_add]
    | abort =>
      simp only [dataSize, Op.sections, ih, totalSize, ByteArray.size_empty, Nat.zero_add]

theorem dataSize_mergeWrites (ops : List Op) : dataSize (Op.mergeWrites ops) = dataSize ops := by
  rw [dataSize_eq, dataSize_eq, Op.sections_mergeWrites]

end Wasm.Linked

end StagedSandbox
