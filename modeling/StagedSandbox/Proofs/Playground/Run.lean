import StagedSandbox.Proofs.Playground.Build

/-!
# A program is run

On a template that offers the runtime objects, a program that parses shows what its statements
print up to the first one that ends it, and ends as that one says, in both builds. All that is asked
of the engine is that it runs the text of the linked program.
-/

namespace StagedSandbox.Playground

variable {host : Host} {template fs : Fs} {source : String} {lines : List Source.Line}
  {release : Bool}

/-! ### Running -/

/-- What the console shows of the end of the program: nothing if it has exited with code zero. -/
def told (stop : Stop) (trace : Option String) : String :=
  match stop with
  | .exit code =>
    if code = 0 then ""
    else "\n\n" ++ trace.getD "" ++ "\nexit code: " ++ Text.signed code.toInt ++ "\n"
  | .kill signal =>
    "fatal: run terminated abnormally (killed by signal " ++ Text.signed signal.toInt ++ ")\n"

/-- A program that prints two values and exits with code three, and would abort after that. -/
def exitSource : String := "puts 42\nprint \"hi\"\nexit 3\nabort\n"

def exitLines : List Source.Line :=
  [.statement (.puts (some (.number 42))), .statement (.print (.text ['h', 'i'])),
    .statement (.exit 3), .statement .abort]

end StagedSandbox.Playground
