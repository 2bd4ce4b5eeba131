import StagedSandbox.Guest.Basic
import StagedSandbox.Guest.Reply

/-!
# Engines

The engine that runs modules is not part of this library: whatever compiles the bytes of a module
to something that can be instantiated on a guest and then called will do. An engine tells its
errors in words of its own.
-/

namespace StagedSandbox.Wasm

/-- Why a call of a module's function did not return, as far as the engine tells. -/
structure CallError where
  /-- Where the module was when it stopped. -/
  backtrace : Option String := none
  /-- The end that the module has asked for, through one of its imports. -/
  stop : Option Stop := none
  /-- The trap that the module has run into. -/
  trap : Option String := none
  /-- The whole error in words. -/
  message : String
  deriving DecidableEq, Repr

/-- A module that was instantiated: its entry function, or why there is none that can be called. -/
structure Instance where
  entry : Except String (Guest → Except CallError Unit × Guest)

/-- A module that was compiled. What it does to the guest while it is instantiated counts also when
that fails. -/
structure Module where
  instantiate : Guest → Except String Instance × Guest

/-- An engine: the module that it makes of bytes, or why it makes none. -/
structure Engine where
  compile : Bytes → Except String Module

end StagedSandbox.Wasm
