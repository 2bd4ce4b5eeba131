import StagedSandbox.Stage.Signal

/-!
# Scripts

A script is a native program given as a list of steps. The replies of its system calls are noted
on the console. A strict script faults at the first call that fails.
-/

namespace StagedSandbox

/-- A step of a script. -/
inductive ScriptStep where
  | call (call : SystemCall)
  | stop (stop : Stop)
  | fault (message : String)

/-- Perform a system call and note its reply. -/
def Native.noted (call : SystemCall) : Native (Except Errno Reply) := fun g =>
  let (reply, g) := g.call call
  .ok reply { g with console := g.console.note reply }

/-- The program of a script. -/
def Native.ofScript (strict : Bool) : List ScriptStep → Native Unit
  | [] => return
  | .stop stop :: _ => throw (.ofStop stop)
  | .fault message :: _ => throw (.faulted (.told message))
  | .call call :: rest => do
    match ← noted call with
    | .ok _ => ofScript strict rest
    | .error e => if strict then throw (.faulted (.told e.message)) else ofScript strict rest

end StagedSandbox
