import StagedSandbox.Fs.Basic

/-!
# Error numbers

The reasons for which a system call fails, with their numbers in the preview 1 interface.
-/

namespace StagedSandbox

/-- Why a system call failed. -/
inductive Errno where
  | badf
  | exist
  | fault
  | fbig
  | ilseq
  | inval
  | isdir
  | mfile
  | noent
  | notdir
  | notempty
  | notsup
  | spipe
  | notcapable
  deriving DecidableEq, Repr

namespace Errno

/-- The number that a program sees. -/
def number : Errno → Nat
  | .badf => 8
  | .exist => 20
  | .fault => 21
  | .fbig => 22
  | .ilseq => 25
  | .inval => 28
  | .isdir => 31
  | .mfile => 33
  | .noent => 44
  | .notdir => 54
  | .notempty => 55
  | .notsup => 58
  | .spipe => 70
  | .notcapable => 76

def message : Errno → String
  | .badf => "bad file descriptor"
  | .exist => "file exists"
  | .fault => "bad address"
  | .fbig => "file too large"
  | .ilseq => "illegal byte sequence"
  | .inval => "invalid argument"
  | .isdir => "is a directory"
  | .mfile => "too many open files"
  | .noent => "no such file or directory"
  | .notdir => "not a directory"
  | .notempty => "directory not empty"
  | .notsup => "not supported"
  | .spipe => "invalid seek"
  | .notcapable => "capabilities insufficient"

/-- The error number of an obstacle in the file system. -/
def ofObstacle : Obstacle → Errno
  | .notFound => .noent
  | .isDirectory => .isdir
  | .notDirectory => .notdir
  | .alreadyExists => .exist
  | .notEmpty => .notempty
  | .invalidPath => .inval
  | .invalidData => .ilseq
  | .tooLarge => .fbig

theorem number_injective {a b : Errno} (h : a.number = b.number) : a = b := by
  revert h
  cases a <;> cases b <;> decide

/-- Zero stands for success. -/
theorem number_ne_zero (e : Errno) : e.number ≠ 0 := by cases e <;> decide

end Errno

end StagedSandbox
