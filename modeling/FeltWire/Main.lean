import FeltWire.Command

/-!
# The program

Runs a command line on the files and streams of the process. The word
`check-schema` in front asks for the checker, any other command line for the
converter.
-/

namespace FeltWire

/-- The system's words for an error. -/
def systemText : IO.Error → String
  | .noFileOrDirectory _ code _ => s!"No such file or directory (os error {code})"
  | .permissionDenied _ code _ => s!"Permission denied (os error {code})"
  | e => toString e

/-- The result of `act`, or the system's words for the error (`systemText`). -/
def attempt {α : Type} (act : IO α) : IO (Except String α) := do
  match ← act.toBaseIO with
  | .ok a => return .ok a
  | .error e => return .error (systemText e)

/-- The files and streams of the process, as `Command` sees them. -/
def processHost : Host IO where
  load path := attempt do
    let bytes ← IO.FS.readBinFile path
    return bytes.data.toList
  listen := do
    let bytes ← (← IO.getStdin).readBinToEnd
    return bytes.data.toList
  save path bytes := attempt (IO.FS.writeBinFile path ⟨bytes.toArray⟩)
  print bytes := do
    let out ← IO.getStdout
    out.write ⟨bytes.toArray⟩
    out.flush

end FeltWire

open FeltWire

/-- Runs a command line by `Tool.run`: that of the checker behind
`check-schema`, and otherwise that of the converter. -/
def main (words : List String) : IO UInt32 := do
  let outcome ← match words with
    | "check-schema" :: words => Tool.run .checker processHost words
    | words => Tool.run .converter processHost words
  IO.eprint outcome.report
  return outcome.code
