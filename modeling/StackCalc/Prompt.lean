import StackCalc.Exit
import StackCalc.Session
import StackCalc.Text

/-! Reading sources from a prompt, a line each. -/

namespace StackCalc

namespace Prompt

def cue : Output := .out "> "

/-- Either the conversation is over, or it goes on with a session. -/
inductive Turn where
  | stop (output : Output) (exit : Exit)
  | go (output : Output) (session : Session)

def isLineEnd (c : Char) : Bool := c == '\n' || c == '\r'

/-- Answer a line, which may still have its newline. An empty one ends the
conversation, as the end of the input does. -/
def turn (session : Session) (line : List UInt8) : Turn :=
  match Utf8.decode? line with
  | none => .stop (.err ("Error reading input: " ++ Utf8.complaint ++ "\n")) .ioError
  | some text =>
    let source := String.ofList (Excerpt.trimEnd isLineEnd text.toList)
    if source.isEmpty then .stop (.out "\n") .success
    else
      let answer := session.runSource source
      .go answer.output answer.session

/-- The whole conversation over some input, after what was said before. -/
def converse (said : Output) (session : Session) (input : List UInt8) : Output × Exit :=
  match input with
  | [] => (said ++ cue ++ .out "\n", .success)
  | byte :: rest =>
    let line := (byte :: rest).takeWhile (· != 10)
    match turn session line with
    | .stop output exit => (said ++ cue ++ output, exit)
    | .go output session =>
      converse (said ++ cue ++ output) session (((byte :: rest).dropWhile (· != 10)).drop 1)
termination_by input.length
decreasing_by
  have shorter := (List.dropWhile_suffix (l := byte :: rest) (· != 10)).length_le
  simp only [List.length_drop, List.length_cons] at shorter ⊢
  omega

end Prompt

end StackCalc
