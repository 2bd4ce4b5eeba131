import StagedSandbox.Guest.Calls

/-!
# How programs end

A program ends by itself, with an exit code or a signal, or it faults. Both kinds of programs,
native ones and modules, end in one `Signal`.
-/

namespace StagedSandbox

/-- Why a program could not go on. -/
inductive Fault where
  /-- A module was stopped, in the words of the engine. -/
  | engine (message : String)
  /-- A native program could not write to one of its streams. -/
  | stream (fd : Nat) (error : Errno)
  /-- A native program's own words. -/
  | told (text : String)
  deriving DecidableEq, Repr

def Fault.message : Fault → String
  | .engine message => message
  | .stream fd error => "write to fd " ++ Text.decimal fd ++ " failed: " ++ error.message
  | .told text => text

/-- How a program ended. -/
inductive Signal where
  | exited (code : Int32)
  | killed (signal : Int32)
  | faulted (fault : Fault)
  deriving DecidableEq, Repr

namespace Signal

/-- The exit code of an orderly end. -/
def exitCode? : Signal → Option Int32
  | .exited code => some code
  | _ => none

/-- Whether the program ended with exit code zero. -/
def isSuccess (s : Signal) : Bool := s = .exited 0

/-- The end in a few words. -/
def kind : Signal → String
  | .exited code => "exited with code " ++ Text.signed code.toInt
  | .killed signal => "killed by signal " ++ Text.signed signal.toInt
  | .faulted fault => "fault: " ++ fault.message

/-- The end that a program asks for. -/
def ofStop : Stop → Signal
  | .exit code => .exited code
  | .kill signal => .killed signal

end Signal

/-- A native program: it acts on its guest, and may end before its last step. -/
abbrev Native (α : Type) := EStateM Signal Guest α

namespace Native

/-- Perform an action of the guest, and go on with its outcome. -/
def attempt {α : Type} (action : Guest.Action α) : Native (Except Errno α) := fun g =>
  match action g with
  | .ok a g => .ok (.ok a) g
  | .error e g => .ok (.error e) g

/-- How a program ends on a guest; one that comes to its last step exits with code zero. -/
def run (program : Native Unit) (g : Guest) : Signal × Guest :=
  match program g with
  | .ok _ g => (.exited 0, g)
  | .error signal g => (signal, g)

end Native

end StagedSandbox
