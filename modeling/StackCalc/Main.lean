import StackCalc.CommandLine

/-! The program itself. It only moves text between the system and the functions
that decide what to say. -/

namespace StackCalc.Program

def write (output : Output) : IO Unit := do
  let stdout ← IO.getStdout
  stdout.putStr output.stdout
  stdout.flush
  (← IO.getStderr).putStr output.stderr

/-- Seconds on a clock that never goes back. -/
def timeStamp : IO String := do
  let now ← IO.monoMsNow
  return toString (now / 1000) ++ "." ++ Column.right 3 '0' (toString (now % 1000))

/-- A directory can be opened but not read; only errors of opening name the file. -/
def fileError : IO.Error → FileError
  | .noFileOrDirectory .. => .missing
  | .permissionDenied .. => .denied
  | .inappropriateType (some _) .. => .notDirectory
  | .inappropriateType none .. => .isDirectory
  | .invalidArgument (some _) .. => .nameTooLong
  | error => .other (toString error)

def readContents (path : String) : IO (Except FileError (List UInt8)) := do
  try
    return .ok (← IO.FS.readBinFile path).toList
  catch error =>
    return .error (fileError error)

partial def readLine (input : IO.FS.Stream) (line : Array UInt8 := #[]) : IO (List UInt8) := do
  let bytes ← input.read 1
  match bytes.toList with
  | [] => return line.toList
  | byte :: _ =>
    if byte = 10 then return (line.push byte).toList else readLine input (line.push byte)

/-- The conversation of `Prompt.converse`, held while the input is being typed. -/
partial def converse (input : IO.FS.Stream) (session : Session) : IO Exit := do
  write Prompt.cue
  match Prompt.turn { session with time := ← timeStamp } (← readLine input) with
  | .stop output exit => write output; return exit
  | .go output session => write output; converse input session

end StackCalc.Program

open StackCalc Program in
def main (arguments : List String) : IO UInt32 := do
  let terminal ← (← IO.getStderr).isTty
  let setting ← IO.getEnv "KETO_LOG"
  match Arguments.read arguments with
  | .ok (.run options .prompt) =>
    return (← converse (← IO.getStdin) (.start options setting terminal "")).code
  | request =>
    let contents ← match request with
      | .ok (.run _ (.file path)) => readContents path
      | _ => pure (.error .missing)
    let surroundings : Surroundings :=
      { fileAt := fun _ => contents, logSetting := setting, terminal, time := ← timeStamp }
    let (output, exit) := CommandLine.run surroundings arguments
    write output
    return exit.code
