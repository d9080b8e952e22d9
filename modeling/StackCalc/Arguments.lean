import StackCalc.Config

/-! Command-line arguments, read from left to right. The first thing that settles
the matter wins: a mistake, or a request for the version or for help. -/

namespace StackCalc

inductive Flag where
  | trace
  | printCode
  | disassemble
  | json
  | noColor
  deriving DecidableEq, Repr

def Flag.name : Flag → String
  | .trace => "trace"
  | .printCode => "print-code"
  | .disassemble => "disassemble"
  | .json => "json"
  | .noColor => "no-color"

def Flag.ofName? (name : String) : Option Flag :=
  [Flag.trace, .printCode, .disassemble, .json, .noColor].find? (·.name == name)

structure Options where
  trace : Bool := false
  printCode : Bool := false
  disassemble : Bool := false
  json : Bool := false
  noColor : Bool := false
  deriving DecidableEq, Repr

namespace Options

def isOn (options : Options) : Flag → Bool
  | .trace => options.trace
  | .printCode => options.printCode
  | .disassemble => options.disassemble
  | .json => options.json
  | .noColor => options.noColor

def turnOn (options : Options) : Flag → Options
  | .trace => { options with trace := true }
  | .printCode => { options with printCode := true }
  | .disassemble => { options with disassemble := true }
  | .json => { options with json := true }
  | .noColor => { options with noColor := true }

def config (options : Options) : Config :=
  { traceExecution := options.trace, printCode := options.printCode }

end Options

inductive Input where
  | prompt
  | inline (source : String)
  | file (path : String)
  deriving DecidableEq, Repr

inductive Request where
  | version
  | help
  | run (options : Options) (input : Input)
  deriving DecidableEq, Repr

inductive UsageError where
  | unknownArgument (argument : String)
  | repeatedOption (option : String)
  | missingValue (option : String)
  | unexpectedValue (option : String)
  | emptyPath
  | pathWithExpression
  deriving DecidableEq, Repr

def UsageError.message : UsageError → String
  | .unknownArgument argument => "unexpected argument '" ++ argument ++ "' found"
  | .repeatedOption option => "the argument '" ++ option ++ "' cannot be used multiple times"
  | .missingValue option => "a value is required for '" ++ option ++ "' but none was supplied"
  | .unexpectedValue option =>
    "unexpected value for '" ++ option ++ "' found; no more were expected"
  | .emptyPath => "a value is required for '[PATH]' but none was supplied"
  | .pathWithExpression => "the argument '--eval <EVAL>' cannot be used with '[PATH]'"

namespace Arguments

structure Given where
  options : Options := {}
  expression : Option String := none
  path : Option String := none

namespace Given

def setFlag (given : Given) (flag : Flag) : Except UsageError Given :=
  if given.options.isOn flag then .error (.repeatedOption ("--" ++ flag.name))
  else .ok { given with options := given.options.turnOn flag }

def setExpression (given : Given) (source : String) : Except UsageError Given :=
  if given.expression.isSome then .error (.repeatedOption "--eval <EVAL>")
  else .ok { given with expression := some source }

def setPath (given : Given) (path : String) : Except UsageError Given :=
  if given.path.isSome then .error (.unknownArgument path)
  else if path.isEmpty then .error .emptyPath
  else .ok { given with path := some path }

def request (given : Given) : Except UsageError Request :=
  match given.expression, given.path with
  | some _, some _ => .error .pathWithExpression
  | some source, none => .ok (.run given.options (.inline source))
  | none, some path => .ok (.run given.options (.file path))
  | none, none => .ok (.run given.options .prompt)

end Given

/-- What an argument means by itself. An expression may come with its option or
in the argument after it. -/
inductive Word where
  | separator
  | version
  | help
  | flag (flag : Flag)
  | expression (attached : Option String)
  | path (path : String)
  | mistake (error : UsageError)

namespace Word

/-- A long option, with the value after its equals sign if it has one. -/
def ofLong (argument name : String) (value : Option String) : Word :=
  match name, value with
  | "eval", value => .expression value
  | "version", none => .version
  | "help", none => .help
  | name, value =>
    match Flag.ofName? name, value with
    | some named, none => .flag named
    | some _, some _ => .mistake (.unexpectedValue argument)
    | none, _ =>
      if name == "version" || name == "help" then .mistake (.unexpectedValue argument)
      else .mistake (.unknownArgument argument)

/-- A short option. The value of `-e` may follow at once, or after an equals sign. -/
def ofShort (letter : Char) (attached : List Char) : Word :=
  match letter, attached with
  | 'e', [] => .expression none
  | 'e', '=' :: value => .expression (some (String.ofList value))
  | 'e', value => .expression (some (String.ofList value))
  | 'V', _ => .version
  | 'h', _ => .help
  | letter, _ => .mistake (.unknownArgument (String.ofList ['-', letter]))

/-- A lone dash is a path. -/
def ofString (argument : String) : Word :=
  match argument.toList with
  | ['-', '-'] => .separator
  | '-' :: '-' :: text =>
    let value := match text.dropWhile (· != '=') with
      | [] => none
      | _ :: value => some (String.ofList value)
    ofLong argument (String.ofList (text.takeWhile (· != '='))) value
  | '-' :: letter :: attached => ofShort letter attached
  | _ => .path argument

end Word

/-- Read the arguments after those already given. The value of an expression
option may look like an option itself, and after a separator everything is a path. -/
def readFrom (given : Given) : List String → Except UsageError Request
  | [] => given.request
  | argument :: rest =>
    match Word.ofString argument, rest with
    | .separator, paths => do (← paths.foldlM Given.setPath given).request
    | .version, _ => .ok .version
    | .help, _ => .ok .help
    | .flag flag, rest => do readFrom (← given.setFlag flag) rest
    | .path path, rest => do readFrom (← given.setPath path) rest
    | .expression (some source), rest => do readFrom (← given.setExpression source) rest
    | .expression none, source :: rest => do readFrom (← given.setExpression source) rest
    | .expression none, [] => .error (.missingValue "--eval <EVAL>")
    | .mistake error, _ => .error error

def read (arguments : List String) : Except UsageError Request := readFrom {} arguments

end Arguments

end StackCalc
