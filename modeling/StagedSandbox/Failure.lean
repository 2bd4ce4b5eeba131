import StagedSandbox.Fs.Basic
import StagedSandbox.Host.OsError
import StagedSandbox.Text.Integer
import StagedSandbox.Text.Quoted

/-!
# Failures

Why a request as a whole fails: building or loading a snapshot, running a stage, or setting up.
Each failure names its cause, and `Failure.message` puts it into words.
-/

namespace StagedSandbox

/-- Why a snapshot is not sound. -/
inductive Corruption where
  | malformedIndex
  /-- A file's range leaves the blob. -/
  | outOfBlob (path : String) (offset length blobSize : Nat)
  /-- The ranges of two files share a byte. -/
  | overlap (first second : String)
  /-- An entry cannot be put into the file system. -/
  | refused (path : String) (error : FsError)
  deriving DecidableEq, Repr

def Corruption.message : Corruption → String
  | .malformedIndex => "malformed index"
  | .outOfBlob path offset length blobSize =>
    path ++ ": range [" ++ Text.decimal offset ++ ", " ++ Text.decimal length ++
      "] exceeds blob of " ++ Text.decimal blobSize ++ " bytes"
  | .overlap first second => "ranges of " ++ first ++ " and " ++ second ++ " overlap"
  | .refused path error => path ++ ": " ++ error.message

/-- Why a setting or an argument is not usable. -/
inductive Misconfiguration where
  | invalidPath (text : String)
  | fileAtRoot
  /-- A mount without a colon. -/
  | mountShape (text : String)
  /-- A mount without a host path, or with a virtual path that is not absolute. -/
  | mountPath (text : String)
  | relativePath (field text : String)
  | blank (field : String)
  | programClash
  | unreadable (path : String) (error : OsError)
  deriving DecidableEq, Repr

def Misconfiguration.message : Misconfiguration → String
  | .invalidPath text => FsError.message ⟨.invalidPath, text⟩
  | .fileAtRoot => "cannot store a file at /"
  | .mountShape text => "mount must look like HOST:VIRTUAL, got " ++ Text.quoted '"' text
  | .mountPath text => "mount must look like HOST:/virtual/path, got " ++ Text.quoted '"' text
  | .relativePath field text => field ++ " must be an absolute path, got '" ++ text ++ "'"
  | .blank field => field ++ " must not be empty"
  | .programClash => "program_path must differ from source_path and object_path"
  | .unreadable path error => path ++ ": " ++ error.message

/-- Why a walk through the host's files stops. -/
inductive WalkError where
  /-- A path that cannot be entered. -/
  | os (path : String) (error : OsError)
  /-- A file that was found but cannot be read. -/
  | unreadable (path : String) (error : OsError)
  /-- A link that leads back to a directory it lies in. -/
  | loop (path ancestor : String)
  deriving DecidableEq, Repr

/-- The path at which a walk stops. -/
def WalkError.path : WalkError → String
  | .os path _ => path
  | .unreadable path _ => path
  | .loop path _ => path

def WalkError.message : WalkError → String
  | .os path error => "IO error for operation on " ++ path ++ ": " ++ error.message
  | .unreadable _ error => error.message
  | .loop path ancestor =>
    "File system loop found: " ++ path ++ " points to an ancestor " ++ ancestor

/-- Why a module cannot be run at all. -/
inductive HostFault where
  /-- The module's file cannot be read. -/
  | cannotLoad (path : String) (error : FsError)
  /-- The engine refuses the module, in its own words. -/
  | engine (message : String)
  deriving DecidableEq, Repr

def HostFault.message : HostFault → String
  | .cannotLoad path error => "cannot load module " ++ path ++ ": " ++ error.message
  | .engine message => message

/-- Why a request fails. -/
inductive Failure where
  | unreadableSource (error : WalkError)
  | corruptSnapshot (cause : Corruption)
  | stageExit (stage : Nat) (code : Int32)
  | abnormalTermination (stage : Nat) (kind : String)
  | hostFault (fault : HostFault)
  | fileSystem (error : FsError)
  | configuration (cause : Misconfiguration)
  | os (error : OsError)
  | malformedOptions
  deriving DecidableEq, Repr

namespace Failure

def message : Failure → String
  | .unreadableSource error =>
    "failed to read snapshot source " ++ error.path ++ ": " ++ error.message
  | .corruptSnapshot cause => "corrupt snapshot: " ++ cause.message
  | .stageExit stage code =>
    "stage " ++ Text.decimal stage ++ " exited with code " ++ Text.signed code.toInt
  | .abnormalTermination stage kind =>
    "stage " ++ Text.decimal stage ++ " terminated abnormally: " ++ kind
  | .hostFault fault => "host fault: " ++ fault.message
  | .fileSystem error => "filesystem error: " ++ error.message
  | .configuration cause => "configuration error: " ++ cause.message
  | .os error => error.message
  | .malformedOptions => "malformed options"

/-- The status that reports a failure: that of the stage that exited, and one otherwise. -/
def status : Failure → Int32
  | .stageExit _ code => code
  | _ => 1

end Failure

end StagedSandbox
