import PageDistill.CommandLine.Run

/-!
# Program

The command on the files and the standard streams of a machine.
-/

namespace PageDistill

open CommandLine

/-- The fault that an error of the machine's files amounts to. -/
def faultOf (path : String) : IO.Error → FileFault
  | .noFileOrDirectory .. => .notFound path
  | e => .other (toString e)

/-- The files of the machine. -/
def machineFiles : FileAccess IO where
  read path := do
    try
      let bytes ← IO.FS.readBinFile (pathText path)
      return .ok bytes.toList
    catch e => return .error (faultOf (pathText path) e)
  write path bytes := do
    try
      IO.FS.writeBinFile (pathText path) ⟨bytes.toArray⟩
      return .ok ()
    catch e => return .error (faultOf (pathText path) e)

/-- The standard input of the machine. -/
def machineInput : IO (Except AccessFault (List Char)) := do
  try
    let bytes ← (← IO.getStdin).readBinToEnd
    match Text.decodeUtf8 bytes.toList with
    | .ok s => return .ok s
    | .error fault => return .error (.coding fault.message)
  catch e => return .error (.file (faultOf "-" e))

/-- Shows a text on the standard output of the machine. -/
def machineOutput (text : String) : IO (Option (String × AccessFault)) := do
  try
    IO.print text
    return none
  catch e => return some ("", .file (faultOf "-" e))

/-- What is around a run on the machine. Every text can be written there. -/
def machineSurroundings : Surroundings IO where
  files := machineFiles
  stdin := machineInput
  display := machineOutput
  unwritable? _ := none
  drawn refs := .ok (linesText (tableLines refs))
  machine := htmlMachine

end PageDistill

/-- Runs the command with the words after its name. -/
def main (words : List String) : IO UInt32 := do
  let ending ← PageDistill.CommandLine.run PageDistill.machineSurroundings words
  IO.eprint ending.stderr
  match ending.code with
  | .error fault => throw (IO.userError fault.message)
  | .ok code => return code.toUInt32
