import FieldMap.CommandLine

/-!
The program: arguments and files are read, the command is executed, and its outcome is shown.
-/

namespace FieldMap.Program

def readText (path : String) : IO (Option Text) := do
  try
    let content ← IO.FS.readFile path
    return some content.toList
  catch _ => return none

def warn (diagnostics : List Diagnostic) : IO Unit :=
  for d in diagnostics do
    IO.eprintln (String.ofList d.logLine)

def fail (failure : Command.Failure) : IO UInt32 := do
  IO.eprintln ("Error: " ++ String.ofList failure.message)
  return 1

def inputPath : Command → Text
  | .generate project .. => project
  | .validate stylesheet _ => stylesheet

end FieldMap.Program

open FieldMap Program in
def main (args : List String) : IO UInt32 := do
  match Command.parse? (args.map String.toList) with
  | none =>
    IO.eprintln "usage: fieldmap generate FILE [-f FORMAT] [-d DELIMITER] [-o FILE] [--no-validate]"
    IO.eprintln "       fieldmap validate FILE [-f FORMAT]"
    return 2
  | some command =>
    let content ← readText (String.ofList (inputPath command))
    match command.execute fun _ => content with
    | .shown text diagnostics =>
      warn diagnostics
      IO.print (String.ofList text)
      return 0
    | .written path text diagnostics =>
      warn diagnostics
      try
        IO.FS.writeFile (String.ofList path) (String.ofList text)
        return 0
      catch _ => fail .file
    | .checked fault =>
      IO.println (String.ofList ((Command.checkReport fault).pretty 0))
      return if fault.isNone then 0 else 1
    | .failed failure => fail failure
