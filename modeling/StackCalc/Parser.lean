import StackCalc.CompileError
import StackCalc.Precedence

/-! The parser reads tokens once, from left to right, and asks for code as it goes.
It builds no tree and never looks at the code: what it asks for depends on the
tokens alone. It goes on after an error, so that every token list yields code. -/

namespace StackCalc

def maxNesting : Nat := 1024

/-- What the parser asks for: an instruction, the constant that a number token
spells, or a report. -/
inductive Directive where
  | operation (operation : Operation) (line : Nat)
  | number (token : Token)
  | report (error : CompileError)
  deriving DecidableEq, Repr

/-- A place in the tokens, with one token of lookahead, and the directives so far. -/
structure Parser where
  previous : Token
  current : Token
  rest : List Token
  directives : Array Directive := #[]

namespace Parser

def direct (parser : Parser) (directive : Directive) : Parser :=
  { parser with directives := parser.directives.push directive }

def reportAtPrevious (parser : Parser) (objection : Objection) : Parser :=
  parser.direct (.report (.atToken parser.previous objection.message))

def reportAtCurrent (parser : Parser) (objection : Objection) : Parser :=
  parser.direct (.report (.atToken parser.current objection.message))

/-- Code belongs to the line of the last token that was consumed. -/
def emit (parser : Parser) (operations : List Operation) : Parser :=
  operations.foldl (fun parser operation =>
    parser.direct (.operation operation parser.previous.line)) parser

/-- Bring up the next token, reporting any error tokens on the way. At the end the
current token stays, which is `eof`. -/
def pull (parser : Parser) : List Token → Parser
  | [] => { parser with rest := [] }
  | token :: rest =>
    if token.kind = .error then (parser.direct (.report (.ofErrorToken token))).pull rest
    else { parser with current := token, rest }

def advance (parser : Parser) : Parser :=
  { parser with previous := parser.current }.pull parser.rest

def expect (parser : Parser) (kind : TokenKind) (objection : Objection) : Parser :=
  if parser.current.kind = kind then parser.advance else parser.reportAtCurrent objection

/-- Let a token do its part. `operand level` reads an operand that binds at least
as tightly as `level`. -/
def apply (operand : Precedence → Parser → Parser) (parser : Parser) : Parselet → Parser
  | .grouping => (operand .assignment parser).expect .rightParen .expectRightParen
  | .unary => (operand .unary parser).emit parser.previous.kind.unaryOperations
  | .binary =>
    let kind := parser.previous.kind
    (operand kind.rule.precedence.next parser).emit kind.binaryOperations
  | .number => parser.direct (.number parser.previous)
  | .literal => parser.emit parser.previous.kind.literalOperations

/-- Take operators that bind at least as tightly as `level`, each with its operand
on the right. Every round consumes a token, so the tokens that are left bound the
rounds. -/
def climb (operand : Precedence → Parser → Parser) (level : Precedence) :
    (bound : List Token) → Parser → Parser
  | [], parser => parser
  | _ :: bound, parser =>
    if level ≤ parser.current.kind.rule.precedence then
      let parser := parser.advance
      match parser.previous.kind.rule.afterOperand with
      | some parselet => climb operand level bound (apply operand parser parselet)
      | none => climb operand level bound parser
    else parser

/-- Read an expression whose operators bind at least as tightly as `level`, with
`room` for that many nested expressions. Without room nothing is consumed. -/
def expression : (room : Nat) → (level : Precedence) → Parser → Parser
  | 0, _, parser => parser.reportAtCurrent .nestedTooDeeply
  | room + 1, level, parser =>
    let parser := parser.advance
    match parser.previous.kind.rule.atStart with
    | some parselet =>
      let parser := apply (expression room) parser parselet
      climb (expression room) level parser.rest parser
    | none => parser.reportAtPrevious .expectExpression

def ofTokens (tokens : List Token) : Parser :=
  let start := ⟨.eof, "", 1⟩
  { previous := start, current := start, rest := tokens }

/-- Read one expression that makes up all the tokens. -/
def readAll (tokens : List Token) : Parser :=
  let parser := (ofTokens tokens).advance
  (expression maxNesting .assignment parser).expect .eof .expectEnd

def directivesOf (tokens : List Token) : List Directive :=
  ((readAll tokens).emit [.return]).directives.toList

end Parser

end StackCalc
