import StackCalc.FileTree
import StackCalc.Prompt

/-! The program as a function: from arguments and surroundings to what it writes
and how it ends. -/

namespace StackCalc

def programVersion : String := "0.3.0"

structure Surroundings where
  fileAt : String → Except FileError (List UInt8)
  stdin : List UInt8 := []
  logSetting : Option String := none
  terminal : Bool := false
  time : String := ""

namespace CommandLine

def usage : String := "Usage: " ++ programName ++ " [OPTIONS] [PATH]\n"

def readSource (surroundings : Surroundings) (path : String) : Except FileError String := do
  match Utf8.decode? (← surroundings.fileAt path) with
  | some text => .ok text
  | none => .error .notText

def runFile (surroundings : Surroundings) (session : Session) (path : String) : Output × Exit :=
  match readSource surroundings path with
  | .error error =>
    (.err ("Could not read file \"" ++ path ++ "\": " ++ error.message ++ "\n"), .ioError)
  | .ok source =>
    let answer := session.runSource source
    (session.log #[.runningFile path source.utf8ByteSize] ++ answer.output,
      .ofOutcome answer.outcome)

def run (surroundings : Surroundings) (arguments : List String) : Output × Exit :=
  match Arguments.read arguments with
  | .error error => (.err ("error: " ++ error.message ++ "\n\n" ++ usage), .badUsage)
  | .ok .version => (.out (programName ++ " " ++ programVersion ++ "\n"), .success)
  | .ok .help => (.out usage, .success)
  | .ok (.run options input) =>
    let session := .start options surroundings.logSetting surroundings.terminal surroundings.time
    match input with
    | .inline source =>
      let answer := session.runSource source
      (answer.output, .ofOutcome answer.outcome)
    | .file path => runFile surroundings session path
    | .prompt => Prompt.converse {} session surroundings.stdin

end CommandLine

end StackCalc
