import StackCalc.JsonText
import StackCalc.LogFilter
import StackCalc.Rendering

/-! A session runs one source after another on one machine and says what it has
to say on the two output streams. -/

namespace StackCalc

structure Output where
  stdout : String := ""
  stderr : String := ""
  deriving DecidableEq, Repr

instance : Append Output := ⟨fun a b => ⟨a.stdout ++ b.stdout, a.stderr ++ b.stderr⟩⟩

namespace Output

def out (text : String) : Output := { stdout := text }

def err (text : String) : Output := { stderr := text }

end Output

/-- Diagnostics are in colour if the error stream is a terminal. `time` opens each log line. -/
structure Session where
  options : Options
  filter : LogFilter
  terminal : Bool := false
  time : String := ""
  machine : Machine := {}

namespace Session

def start (options : Options) (setting : Option String) (terminal : Bool) (time : String) :
    Session :=
  { options, filter := .choose setting options, terminal, time,
    machine := { config := options.config } }

/-- Log lines are plain, whatever `terminal` is. -/
def log (session : Session) (events : Array Event) : Output :=
  .err (events.foldl (fun text event =>
    if session.filter.admits event then text ++ event.line session.time else text) "")

/-- What came of a source: the listing is there if it was asked for and the
source compiled. -/
structure Execution where
  outcome : Except InterpretError Value
  stack : List Value
  compileLog : Array Event
  listing : Option String := none
  runLog : Array Event := #[]

def execute (session : Session) (source : String) : Execution :=
  let compiled := compile session.machine.config source .empty
  if compiled.errors.isEmpty then
    let run := session.machine.run compiled.chunk
    { outcome := run.outcome.mapError .runtime, stack := run.stack, compileLog := compiled.log,
      listing := if session.options.disassemble then some (compiled.chunk.listing "code") else none,
      runLog := run.log }
  else
    { outcome := .error (.compile compiled.errors), stack := session.machine.stack,
      compileLog := compiled.log }

/-- Results go to one stream, and diagnostics to the other. -/
def present (session : Session) (source : String) : Except InterpretError Value → Output
  | .ok value => .out ((if session.options.json then value.json else value.text) ++ "\n")
  | .error error =>
    .err (String.join ((Diagnostic.ofInterpretError error).map fun diagnostic =>
      if session.options.json then diagnostic.json ++ "\n"
      else (diagnostic.withSource source).render (session.terminal && !session.options.noColor)))

structure Answer where
  outcome : Except InterpretError Value
  output : Output
  session : Session

def runSource (session : Session) (source : String) : Answer :=
  let execution := session.execute source
  { outcome := execution.outcome
    output := session.log execution.compileLog ++ .err (execution.listing.getD "") ++
      session.log execution.runLog ++ session.present source execution.outcome
    session := { session with machine := session.machine.keeping execution.stack } }

end Session

end StackCalc
