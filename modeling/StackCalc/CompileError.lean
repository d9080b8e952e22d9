import StackCalc.Chunk
import StackCalc.Lexeme
import StackCalc.Text

/-! Errors in source text. -/

namespace StackCalc

/-- Where an error was found. Lexical errors stand for themselves: their message
already says what is wrong. -/
inductive Location where
  | atEnd
  | at (lexeme : String)
  | lexical
  deriving DecidableEq, Repr

def Location.text : Location → String
  | .atEnd => " at end"
  | .at lexeme => " at '" ++ lexeme ++ "'"
  | .lexical => ""

def Location.ofToken (token : Token) : Location :=
  match token.kind with
  | .eof => .atEnd
  | .error => .lexical
  | _ => .at token.lexeme

structure CompileError where
  line : Nat
  location : Location
  message : String
  deriving DecidableEq, Repr

inductive Objection where
  | expectExpression
  | expectRightParen
  | expectEnd
  | nestedTooDeeply
  | tooManyConstants
  | invalidNumber
  deriving DecidableEq, Repr

def Objection.message : Objection → String
  | .expectExpression => "Expect expression."
  | .expectRightParen => "Expect ')' after expression."
  | .expectEnd => "Expect end of expression."
  | .nestedTooDeeply => "Expression nested too deeply."
  | .tooManyConstants => ChunkError.constantPoolFull.message
  | .invalidNumber => "Invalid number literal."

namespace CompileError

def atToken (token : Token) (message : String) : CompileError :=
  ⟨token.line, .ofToken token, message⟩

/-- An `error` token reports itself. -/
def ofErrorToken (token : Token) : CompileError := atToken token token.lexeme

def text (error : CompileError) : String :=
  "[line " ++ Column.right 4 ' ' (toString error.line) ++ "] Error" ++
    error.location.text ++ ": " ++ error.message

def listText (errors : List CompileError) : String :=
  "\n".intercalate (errors.map text)

end CompileError

end StackCalc
