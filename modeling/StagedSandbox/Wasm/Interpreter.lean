import StagedSandbox.Wasm.Engine
import StagedSandbox.Wasm.Text

/-!
# The interpreter

An engine that takes texts alone, and of these the ones that have a meaning here. It takes down no
backtraces.
-/

namespace StagedSandbox.Wasm

def Trap.message : Trap → String
  | .unreachable => "unreachable code was reached"
  | .outOfBounds => "an access was out of bounds"

/-- The error of a call that was stopped. -/
def CallError.ofStopped : Stopped → CallError
  | .stop stop => { stop := some stop, message := stop.message }
  | .trap trap => { trap := some trap.message, message := trap.message }

/-- The module that does what is meant. -/
def Module.ofMeaning (meaning : Meaning) : Module where
  instantiate g :=
    (.ok ⟨.ok fun g => ((meaning g).1.mapError CallError.ofStopped, (meaning g).2)⟩, g)

/-- The engine that runs texts by their meaning. -/
def Engine.interpreter : Engine where
  compile data :=
    match data.text?.bind meaningOf? with
    | some meaning => .ok (.ofMeaning meaning)
    | none => .error "the module has no meaning"

end StagedSandbox.Wasm
