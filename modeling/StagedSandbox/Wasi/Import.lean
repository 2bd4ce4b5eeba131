import StagedSandbox.Wasi.Call

/-!
# Imports by name

Modules import the functions of the interface by name, each under its type. All functions but
`proc_exit` answer an error number.
-/

namespace StagedSandbox.Wasi

/-- The type of a word that is passed to a function. -/
inductive ValueType where
  | i32
  | i64
  deriving DecidableEq, Repr

/-- The type of a function. -/
structure FunctionType where
  parameters : List ValueType
  results : List ValueType
  deriving DecidableEq, Repr

/-- A function of the interface: its type, and the call that it makes of its arguments. These are
words, given as numbers of either sign. -/
structure Import where
  type : FunctionType
  call : List Int → Call

namespace Import

/-- The module from which all functions are imported. -/
def moduleName : String := "wasi_snapshot_preview1"

/-- A 32-bit argument. -/
def word (arguments : List Int) (i : Nat) : UInt32 := UInt32.ofInt (arguments.getD i 0)

/-- A 64-bit argument. -/
def long (arguments : List Int) (i : Nat) : Int64 := Int64.ofInt (arguments.getD i 0)

/-- A 32-bit argument that is a number of either sign. -/
def number (arguments : List Int) (i : Nat) : Int32 := Int32.ofInt (arguments.getD i 0)

/-- A function that answers an error number. -/
def answering (parameters : List ValueType) (call : List Int → Call) : Import :=
  ⟨⟨parameters, [.i32]⟩, call⟩

/-- A function all of whose parameters are words of 32 bits. -/
def ofWords (count : Nat) (call : List Int → Call) : Import :=
  answering (List.replicate count .i32) call

/-- The function of a name. -/
def ofName? : String → Option Import
  | "args_get" => some (ofWords 2 fun a => .argsGet (word a 0) (word a 1))
  | "args_sizes_get" => some (ofWords 2 fun a => .argsSizesGet (word a 0) (word a 1))
  | "environ_get" => some (ofWords 2 fun a => .environGet (word a 0) (word a 1))
  | "environ_sizes_get" => some (ofWords 2 fun a => .environSizesGet (word a 0) (word a 1))
  | "clock_res_get" => some (ofWords 2 fun a => .clockResGet (word a 1))
  | "clock_time_get" => some (answering [.i32, .i64, .i32] fun a => .clockTimeGet (word a 2))
  | "random_get" => some (ofWords 2 fun a => .randomGet (word a 0) (word a 1))
  | "fd_write" => some (ofWords 4 fun a => .fdWrite (word a 0) (word a 1) (word a 2) (word a 3))
  | "fd_pwrite" =>
    some (answering [.i32, .i32, .i32, .i64, .i32] fun a =>
      .fdPwrite (word a 0) (word a 1) (word a 2) (long a 3) (word a 4))
  | "fd_read" => some (ofWords 4 fun a => .fdRead (word a 0) (word a 1) (word a 2) (word a 3))
  | "fd_pread" =>
    some (answering [.i32, .i32, .i32, .i64, .i32] fun a =>
      .fdPread (word a 0) (word a 1) (word a 2) (long a 3) (word a 4))
  | "fd_seek" =>
    some (answering [.i32, .i64, .i32, .i32] fun a =>
      .fdSeek (word a 0) (long a 1) (word a 2) (word a 3))
  | "fd_tell" => some (ofWords 2 fun a => .fdTell (word a 0) (word a 1))
  | "fd_close" => some (ofWords 1 fun a => .fdClose (word a 0))
  | "fd_sync" | "fd_datasync" => some (ofWords 1 fun a => .fdSync (word a 0))
  | "fd_fdstat_set_flags" => some (ofWords 2 fun a => .fdSync (word a 0))
  | "fd_fdstat_get" => some (ofWords 2 fun a => .fdFdstatGet (word a 0) (word a 1))
  | "fd_filestat_get" => some (ofWords 2 fun a => .fdFilestatGet (word a 0) (word a 1))
  | "fd_filestat_set_size" =>
    some (answering [.i32, .i64] fun a => .fdFilestatSetSize (word a 0) (long a 1))
  | "fd_prestat_get" => some (ofWords 2 fun a => .fdPrestatGet (word a 0) (word a 1))
  | "fd_prestat_dir_name" =>
    some (ofWords 3 fun a => .fdPrestatDirName (word a 0) (word a 1) (word a 2))
  | "fd_readdir" =>
    some (answering [.i32, .i32, .i32, .i64, .i32] fun a =>
      .fdReaddir (word a 0) (word a 1) (word a 2) (long a 3) (word a 4))
  | "path_open" =>
    some (answering [.i32, .i32, .i32, .i32, .i32, .i64, .i64, .i32, .i32] fun a =>
      .pathOpen (word a 0) (word a 2) (word a 3) (word a 4) (long a 5).toUInt64 (word a 7)
        (word a 8))
  | "path_filestat_get" =>
    some (ofWords 5 fun a => .pathFilestatGet (word a 0) (word a 2) (word a 3) (word a 4))
  | "path_create_directory" =>
    some (ofWords 3 fun a => .pathCreateDirectory (word a 0) (word a 1) (word a 2))
  | "path_unlink_file" =>
    some (ofWords 3 fun a => .pathUnlinkFile (word a 0) (word a 1) (word a 2))
  | "path_remove_directory" =>
    some (ofWords 3 fun a => .pathRemoveDirectory (word a 0) (word a 1) (word a 2))
  | "path_rename" =>
    some (ofWords 6 fun a =>
      .pathRename (word a 0) (word a 1) (word a 2) (word a 3) (word a 4) (word a 5))
  | "proc_exit" => some ⟨⟨[.i32], []⟩, fun a => .procExit (number a 0)⟩
  | "proc_raise" => some (ofWords 1 fun a => .procRaise (number a 0))
  | "sched_yield" => some (ofWords 0 fun _ => .schedYield)
  | "poll_oneoff" => some (ofWords 4 fun _ => .pollOneoff)
  | _ => none

end Import

end StagedSandbox.Wasi
