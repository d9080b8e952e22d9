/-! Tokens of the expression language. Most kinds are reserved: the scanner knows
them, but no expression contains them. -/

namespace StackCalc

inductive TokenKind where
  | leftParen | rightParen | leftBrace | rightBrace | comma | dot
  | minus | plus | semicolon | slash | star
  | bang | bangEqual | equal | equalEqual
  | greater | greaterEqual | less | lessEqual
  | identifier | string | number
  | kwAnd | kwClass | kwElse | kwFalse | kwFor | kwFun | kwIf | kwNil
  | kwOr | kwPrint | kwReturn | kwSuper | kwThis | kwTrue | kwVar | kwWhile
  | error | eof
  deriving DecidableEq, Repr

def TokenKind.keywords : List (String × TokenKind) :=
  [("and", .kwAnd), ("class", .kwClass), ("else", .kwElse), ("false", .kwFalse),
   ("for", .kwFor), ("fun", .kwFun), ("if", .kwIf), ("nil", .kwNil),
   ("or", .kwOr), ("print", .kwPrint), ("return", .kwReturn), ("super", .kwSuper),
   ("this", .kwThis), ("true", .kwTrue), ("var", .kwVar), ("while", .kwWhile)]

/-- A whole word is a keyword or a name; `classy` is a name. -/
def TokenKind.ofWord (word : String) : TokenKind :=
  (keywords.lookup word).getD .identifier

/-- The line is the one on which the token ends. An `error` token carries its
message in place of the source text; `eof` carries nothing. -/
structure Token where
  kind : TokenKind
  lexeme : String
  line : Nat
  deriving DecidableEq, Repr

end StackCalc
