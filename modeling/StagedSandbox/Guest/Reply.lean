import StagedSandbox.Guest.Errno
import StagedSandbox.Text.Integer

/-!
# Replies of system calls

What a system call answers, and the console that keeps what a program shows: the text it writes,
and the replies that a scripted program has noted.
-/

namespace StagedSandbox

/-- The kind of thing behind a descriptor or a path. -/
inductive FileType where
  | unknown
  | characterDevice
  | directory
  | regularFile
  deriving DecidableEq, Repr

/-- The number that a program sees. -/
def FileType.number : FileType → UInt8
  | .unknown => 0
  | .characterDevice => 2
  | .directory => 3
  | .regularFile => 4

/-- What is known about an open descriptor or a path. -/
structure FileStatus where
  fileType : FileType
  size : Nat
  deriving DecidableEq, Repr

/-- A program's own request to end. -/
inductive Stop where
  | exit (code : Int32)
  | kill (signal : Int32)
  deriving DecidableEq, Repr

def Stop.message : Stop → String
  | .exit code => "process exited with code " ++ Text.signed code.toInt
  | .kill signal => "process killed by signal " ++ Text.signed signal.toInt

/-- What a system call answers. -/
inductive Reply where
  | done
  | descriptor (fd : Nat)
  | count (n : Nat)
  | position (offset : UInt64)
  | time (nanoseconds : Nat)
  | data (bytes : Bytes)
  | status (status : FileStatus)
  | entries (entries : List (String × FileType))
  | arguments (arguments : List String)
  | environment (environment : List (String × String))
  | preopens (preopens : List (Nat × Path))
  | target (fd : Nat) (path : String)
  | isTerminal (answer : Bool)
  | stop (stop : Stop)

/-- What programs have shown: the text of the transcript, and the replies noted by scripted
programs, the last one first. -/
structure Console where
  text : String := ""
  notes : List (Except Errno Reply) := []

namespace Console

def append (console : Console) (text : String) : Console :=
  { console with text := console.text ++ text }

def note (console : Console) (reply : Except Errno Reply) : Console :=
  { console with notes := reply :: console.notes }

@[simp] theorem text_append (console : Console) (text : String) :
    (console.append text).text = console.text ++ text := rfl

@[simp] theorem text_note (console : Console) (reply : Except Errno Reply) :
    (console.note reply).text = console.text := rfl

end Console

end StagedSandbox
