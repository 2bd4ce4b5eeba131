import StagedSandbox.Guest.Reply
import StagedSandbox.Object.Basic
import StagedSandbox.Proofs.Text.Utf8
import StagedSandbox.Source.Reader
import StagedSandbox.Wasm.Linked

/-!
# What programs mean

A program prints the texts of its statements up to the first one that ends it, and ends as that
one says, or with exit code zero. The operations it compiles to write the same text and end in the
same way, and merging writes changes neither.
-/

namespace StagedSandbox

namespace Source

/-! ### Source programs -/

/-- The statements of a program, in order. -/
def statements (lines : List Line) : List Statement := lines.filterMap Line.statement?

/-- The characters that statements print, up to the first one that ends the program. -/
def shown : List Statement → List Char
  | [] => []
  | .exit _ :: _ | .abort :: _ => []
  | .print v :: rest => v.shown ++ shown rest
  | .puts none :: rest => ['\n'] ++ shown rest
  | .puts (some v) :: rest => v.shown ++ ['\n'] ++ shown rest

/-- How statements end the program. -/
def stop : List Statement → Stop
  | [] => .exit 0
  | .exit code :: _ => .exit code
  | .abort :: _ => .kill Wasm.Linked.abortSignal
  | .print _ :: rest | .puts _ :: rest => stop rest

end Source

namespace Op

/-! ### Operations -/

/-- The bytes that operations write, up to the first one that ends the program. -/
def written : List Op → Bytes
  | [] => ByteArray.empty
  | .exit _ :: _ | .abort :: _ => ByteArray.empty
  | .write data :: rest => data ++ written rest

/-- How operations end the program. -/
def stop : List Op → Stop
  | [] => .exit 0
  | .exit code :: _ => .exit code
  | .abort :: _ => .kill Wasm.Linked.abortSignal
  | .write _ :: rest => stop rest

/-- Putting an operation in front means the same, whether or not it is merged. -/
theorem written_mergeCons (op : Op) (rest : List Op) :
    written (mergeCons op rest) = written (op :: rest) := by
  cases op with
  | exit code => rfl
  | abort => rfl
  | write data =>
    cases rest with
    | nil => rfl
    | cons next more =>
      cases next with
      | exit code => rfl
      | abort => rfl
      | write second => exact ByteArray.append_assoc

theorem stop_mergeCons (op : Op) (rest : List Op) :
    stop (mergeCons op rest) = stop (op :: rest) := by
  cases op with
  | exit code => rfl
  | abort => rfl
  | write data =>
    cases rest with
    | nil => rfl
    | cons next more => cases next <;> rfl

theorem written_mergeWrites (ops : List Op) : written (mergeWrites ops) = written ops := by
  induction ops with
  | nil => rfl
  | cons op rest ih =>
    rw [mergeWrites, List.foldr_cons, written_mergeCons]
    cases op with
    | exit code => rfl
    | abort => rfl
    | write data => exact congrArg (data ++ ·) ih

theorem stop_mergeWrites (ops : List Op) : stop (mergeWrites ops) = stop ops := by
  induction ops with
  | nil => rfl
  | cons op rest ih =>
    rw [mergeWrites, List.foldr_cons, stop_mergeCons]
    cases op with
    | exit code => rfl
    | abort => rfl
    | write data => exact ih

end Op

end StagedSandbox
