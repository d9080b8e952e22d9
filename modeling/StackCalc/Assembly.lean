import StackCalc.Config
import StackCalc.Event
import StackCalc.Listing
import StackCalc.Parser
import StackCalc.Scanner

/-! Carrying out directives on a chunk. Only the first error is reported: after it
the rest is carried out silently. -/

namespace StackCalc

/-- A chunk in the making, with the errors reported and the log so far. -/
structure Assembly where
  chunk : Chunk
  errors : List CompileError := []
  log : Array Event := #[]

namespace Assembly

def report (assembly : Assembly) (error : CompileError) : Assembly :=
  if assembly.errors.isEmpty then
    { assembly with errors := [error], log := assembly.log.push (.compileError error) }
  else assembly

def write (assembly : Assembly) (byte : UInt8) (line : Nat) : Assembly :=
  { assembly with chunk := assembly.chunk.write byte line }

def load (assembly : Assembly) (index : UInt8) (line : Nat) : Assembly :=
  (assembly.write Opcode.constant.byte line).write index line

/-- Add a constant and load it. If the pool is full, load the first one instead. -/
def constant (assembly : Assembly) (value : Value) (token : Token) : Assembly :=
  match assembly.chunk.addConstant value with
  | .ok (index, chunk) => { assembly with chunk }.load index token.line
  | .error _ =>
    (assembly.report (.atToken token Objection.tooManyConstants.message)).load 0 token.line

def perform (assembly : Assembly) : Directive → Assembly
  | .operation operation line => assembly.write operation.byte line
  | .number token =>
    match Numeral.read? token.lexeme with
    | some x => assembly.constant (.number x) token
    | none => assembly.report (.atToken token Objection.invalidNumber.message)
  | .report error => assembly.report error

def ofTokens (tokens : List Token) (chunk : Chunk) : Assembly :=
  (Parser.directivesOf tokens).foldl perform { chunk }

def finish (assembly : Assembly) (config : Config) : Assembly :=
  let { chunk, errors, log } := assembly
  let log :=
    if config.printCode && errors.isEmpty then log.push (.listing (chunk.listing "code")) else log
  { chunk, errors, log := log.push (.compiled chunk.code.size chunk.constants.size errors.length) }

end Assembly

/-- Compile a source and append the code to a chunk. It compiled if there are no
errors; either way the new code ends in a return. -/
def compile (config : Config) (source : String) (chunk : Chunk) : Assembly :=
  (Assembly.ofTokens (tokensOf source) chunk).finish config

end StackCalc
