import StackCalc.Arguments
import StackCalc.LogDirective
import StackCalc.Text

/-! Which events reach the log, and how they are written there. -/

namespace StackCalc

structure LogFilter where
  directives : List LogDirective
  deriving DecidableEq, Repr

namespace LogFilter

/-- The most specific directive that concerns the event decides, the last one of
those that are equally so. -/
def deciding? (filter : LogFilter) (event : Event) : Option LogDirective :=
  (filter.directives.filter (·.concerns event)).foldl (fun best next =>
    if best.all (·.yieldsTo next) then some next else best) none

def admits (filter : LogFilter) (event : Event) : Bool :=
  (filter.deciding? event).any (event.level.detail ≤ ·.detail)

/-- Without other instructions the options say what is wanted of the program. -/
def ofOptions (options : Options) : LogFilter :=
  let rest : LogDirective := { detail := Level.warn.detail }
  let program (level : Level) : LogDirective := { target := programName, detail := level.detail }
  if options.trace then ⟨[rest, program .trace]⟩
  else if options.printCode then ⟨[rest, program .debug]⟩
  else ⟨[rest]⟩

/-- Read directives with commas between them. One that cannot be read spoils all. -/
def ofString? (text : String) : Option LogFilter :=
  (((text.splitOn ",").filter (! ·.isEmpty)).mapM LogDirective.ofString?).map LogFilter.mk

/-- The setting, if it is there and can be read, takes the place of the options. -/
def choose (setting : Option String) (options : Options) : LogFilter :=
  (setting.bind ofString?).getD (ofOptions options)

end LogFilter

namespace Event

def Field.shown : Field → String
  | .text shown => shown
  | .count number => toString number

/-- The line is plain, as it is on a stream that is no terminal or without colour. The
escape sequences that a terminal would get around its parts are not modelled. -/
def line (event : Event) (time : String) : String :=
  time ++ " " ++ Column.right 5 ' ' event.level.word ++ " " ++ event.message ++
    String.join (event.fields.map fun (name, field) => " " ++ name ++ "=" ++ field.shown) ++ "\n"

end Event

end StackCalc
