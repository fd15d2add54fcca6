import Workplan.Command.Run

/-!
# The command line

Runs commands on the files and in the environment of the process.
-/

namespace Workplan

def FileFault.ofError : IO.Error → FileFault
  | .noFileOrDirectory .. => notFound
  | .inappropriateType _ code reason => ofCode code reason
  | e => other e.toString
where
  ofCode (code : UInt32) (reason : String) : FileFault :=
    if code == 21 then isDirectory
    else if code == 20 then notDirectory
    else other reason

instance : FileAccess IO where
  readText path := do
    try
      match String.fromUTF8? (← IO.FS.readBinFile path) with
      | some text => return .ok text
      | none => return .error .notUtf8
    catch e => return .error (.ofError e)
  isFile path := do
    try
      discard <| IO.FS.readBinFile path
      return true
    catch e =>
      match FileFault.ofError e with
      | .other _ => return true
      | _ => return false
  writeText path text := do
    try
      IO.FS.writeFile path text
      return .ok ()
    catch e => return .error (.ofError e)

/-- No generator is linked to the program. -/
instance : CompletionGenerator IO where
  script _ := return ""

def processEnv : IO (Dictionary String) := do
  try
    let bytes ← IO.FS.readBinFile "/proc/self/environ"
    let entries := ((String.fromUTF8? bytes).getD "").splitOn "\x00"
    return .ofList (entries.filterMap Command.keyValue?)
  catch _ => return .empty

end Workplan

open Workplan in
def main (arguments : List String) : IO UInt32 := do
  let outcome ← Command.run (m := IO) (← processEnv) arguments
  IO.print outcome.output
  if let some report := outcome.report then IO.eprintln ("Error: " ++ report)
  return UInt32.ofNat outcome.code
