import StackCalc.CharacterClass

/-! Patterns that a log directive may ask of a field. Nothing is ever matched here:
what counts is whether a text is a pattern at all. So reading one keeps no tree, only
how deep it nests. -/

namespace StackCalc.Pattern

open CharacterClass

def maxDepth : Nat := 250

/-- Flags in force. There are no tables of Unicode: while `unicode` is on, classes
by name, places between words and the folding of case are not to be had. While it is
off, nothing may match a part of a character. -/
structure Mode where
  unicode : Bool := true
  folding : Bool := false
  spaced : Bool := false
  deriving DecidableEq, Repr

namespace Mode

def set (mode : Mode) (on : Bool) : Char → Mode
  | 'u' => { mode with unicode := on }
  | 'i' => { mode with folding := on }
  | 'x' => { mode with spaced := on }
  | _ => mode

/-- Flags behind a minus are turned off. -/
def change (mode : Mode) (flags : List Char) : Mode :=
  let on := flags.takeWhile (· != '-')
  let off := flags.dropWhile (· != '-')
  off.foldl (·.set false) (on.foldl (·.set true) mode)

end Mode

/-! Blanks and comments -/

def skipSpace (inComment : Bool) : List Char → List Char
  | [] => []
  | c :: rest =>
    if inComment then skipSpace (c != '\n') rest
    else if isBlank c then skipSpace false rest
    else if c == '#' then skipSpace true rest
    else c :: rest

/-- What comes next, without blanks and comments where they do not count. -/
def skip (mode : Mode) (text : List Char) : List Char :=
  if mode.spaced then skipSpace false text else text

/-- The character that decides whether a dash makes a range. The mark of a comment
is passed over, but not the comment. -/
def glance (mode : Mode) (text : List Char) : Option Char :=
  let first := (text.dropWhile isBlank).head?
  let second := (((text.dropWhile isBlank).drop 1).dropWhile isBlank).head?
  if !mode.spaced then text.head?
  else (if first = some '#' then second else first).or text.head?

/-! Escapes -/

/-- What is written with a backslash. A byte is a character given by two digits. -/
inductive Escape where
  | literal (c : Char) (byte : Bool)
  | namedClass (negated : Bool)
  | edge
  | wordEdge
  deriving DecidableEq, Repr

def hexDigit? (c : Char) : Option Nat := "0123456789abcdef".toList.idxOf? c.toLower

def hex? (mode : Mode) : Nat → Nat → List Char → Option (Nat × List Char)
  | 0, code, text => some (code, text)
  | missing + 1, code, text =>
    match skip mode text with
    | [] => none
    | c :: rest => (hexDigit? c).bind fun digit => hex? mode missing (16 * code + digit) rest

def hexEscape? (mode : Mode) (digits : Nat) (text : List Char) :
    Option (Escape × List Char) := do
  let (code, rest) ← hex? mode digits 0 text
  if code.isValidChar then some (.literal (Char.ofNat code) (digits == 2), rest) else none

def escape? (mode : Mode) : List Char → Option (Escape × List Char)
  | [] => none
  | 'x' :: rest => hexEscape? mode 2 rest
  | 'u' :: rest => hexEscape? mode 4 rest
  | 'U' :: rest => hexEscape? mode 8 rest
  | c :: rest =>
    if ['d', 's', 'w'].contains c then some (.namedClass false, rest)
    else if ['D', 'S', 'W'].contains c then some (.namedClass true, rest)
    else if ['A', 'z'].contains c then some (.edge, rest)
    else if ['b', 'B', '<', '>'].contains c then some (.wordEdge, rest)
    else match [('a', '\x07'), ('f', '\x0c'), ('t', '\t'), ('n', '\n'), ('r', '\r'),
        ('v', '\x0b')].lookup c with
      | some meant => some (.literal meant false, rest)
      | none =>
        if c.toNat < 128 && !c.isAlphanum then some (.literal c false, rest) else none

def Escape.isAllowed (mode : Mode) : Escape → Bool
  | .literal c byte =>
    if mode.unicode then !mode.folding else !byte || c.toNat < 128
  | .namedClass negated => !mode.unicode && !negated
  | .edge => true
  | .wordEdge => !mode.unicode

def Escape.isMember (mode : Mode) : Escape → Bool
  | .literal c _ => if mode.unicode then !mode.folding else c.toNat < 128
  | .namedClass negated => !mode.unicode && !negated
  | .edge | .wordEdge => false

/-! Sets of characters in brackets -/

/-- How deep parts nest side by side. Only several of them make a level. -/
def together : List Nat → Nat
  | [] => 0
  | [depth] => depth
  | depths => 1 + depths.foldl max 0

def member? (mode : Mode) (text : List Char) : Option (Escape × List Char) :=
  match text with
  | [] => none
  | '\\' :: rest => escape? mode rest
  | c :: rest => some (.literal c false, rest)

def range? (mode : Mode) (text : List Char) : Option (List Char) := do
  let (first, rest) ← member? mode text
  guard (first.isMember mode)
  let rest := skip mode rest
  match rest with
  | '-' :: after =>
    if [some ']', some '-'].contains (glance mode after) then return rest
    let (last, rest) ← member? mode (skip mode after)
    guard (last.isMember mode)
    match first, last with
    | .literal low _, .literal high _ => if low ≤ high then return rest else none
    | _, _ => none
  | _ => return rest

def classNames : List String :=
  ["alnum", "alpha", "ascii", "blank", "cntrl", "digit", "graph", "lower", "print", "punct",
    "space", "upper", "word", "xdigit"]

/-- Read a named class after its opening bracket: whether it is negated, and what
follows. -/
def namedClass? : List Char → Option (Bool × List Char)
  | ':' :: text =>
    let negated := text.head? == some '^'
    let text := if negated then text.drop 1 else text
    match text.dropWhile (· != ':') with
    | ':' :: ']' :: rest =>
      if classNames.contains (String.ofList (text.takeWhile (· != ':'))) then
        some (negated, rest)
      else none
    | _ => none
  | _ => none

/-- What has been read of a set: the left side of an operator, and the depths of the
members after it. -/
structure Members where
  left : Option Nat := none
  depths : List Nat := []

namespace Members

def add (members : Members) (depth : Nat) : Members :=
  { members with depths := depth :: members.depths }

def depth (members : Members) : Nat :=
  match members.left with
  | none => together members.depths
  | some left => 1 + max left (together members.depths)

end Members

/-- The text of a set after its opening bracket and the caret that negates it. What
a set leaves out is a part of a character if characters do not count as a whole. -/
def uncaret? (mode : Mode) (text : List Char) : Option (List Char) :=
  match skip mode text with
  | '^' :: rest => if mode.unicode then some rest else none
  | text => some text

/-- Read a set up to its closing bracket: how deep it nests, and what follows. In
front of the first member, at the `head`, dashes and a closing bracket are members. -/
def set? (mode : Mode) : Nat → Bool → Members → List Char → Option (Nat × List Char)
  | 0, _, _, _ => none
  | fuel + 1, head, members, text => do
    match skip mode text with
    | [] => none
    | ']' :: rest =>
      if head && members.depths.isEmpty then
        guard ((Escape.literal ']' false).isMember mode)
        set? mode fuel false (members.add 0) rest
      else return (1 + members.depth, rest)
    | '[' :: rest =>
      match namedClass? rest with
      | some (negated, rest) =>
        guard (if mode.unicode then !mode.folding else !negated)
        set? mode fuel false (members.add 0) rest
      | none =>
        let (depth, rest) ← set? mode fuel true {} (← uncaret? mode rest)
        set? mode fuel false (members.add depth) rest
    | c :: rest =>
      if head && c == '-' then
        guard ((Escape.literal '-' false).isMember mode)
        set? mode fuel true (members.add 0) rest
      else if ['&', '-', '~'].contains c && rest.head? == some c then
        set? mode fuel false { left := some members.depth } (rest.drop 1)
      else set? mode fuel false (members.add 0) (← range? mode (c :: rest))

/-! Groups -/

inductive Opening where
  | flags (flags : List Char)
  | group (flags : List Char) (name : Option (List Char))
  deriving DecidableEq, Repr

def isName : List Char → Bool
  | [] => false
  | first :: rest =>
    (first == '_' || isAlphabetic first) &&
      rest.all fun c => isAlphanumeric c || ['_', '.', '[', ']'].contains c

def named? (text : List Char) : Option (Opening × List Char) :=
  let name := text.takeWhile (· != '>')
  match text.dropWhile (· != '>') with
  | [] => none
  | _ :: rest => if isName name then some (.group [] (some name), rest) else none

def areFlags (flags : List Char) : Bool :=
  flags.all "imsUuRx-".toList.contains && flags.Nodup && flags.getLast? != some '-'

def flagged? (text : List Char) : Option (Opening × List Char) := do
  let flags := text.takeWhile fun c => c != ':' && c != ')'
  guard (areFlags flags)
  match text.dropWhile fun c => c != ':' && c != ')' with
  | ':' :: rest => return (.group flags none, rest)
  | ')' :: rest => if flags.isEmpty then none else return (.flags flags, rest)
  | _ => none

def opening? : List Char → Option (Opening × List Char)
  | '?' :: 'P' :: '<' :: rest | '?' :: '<' :: rest => named? rest
  | '?' :: rest => flagged? rest
  | text => some (.group [] none, text)

/-! Whole patterns -/

/-- Flags are no item that can be repeated. -/
structure Item where
  depth : Nat := 0
  repeatable : Bool := true
  deriving DecidableEq, Repr

/-- What has been read of a group: the items of the last branch, latest first, and
the depths of the branches before it. -/
structure Level where
  mode : Mode := {}
  items : List Item := []
  branches : List Nat := []
  deriving DecidableEq, Repr

namespace Level

def add (level : Level) (item : Item) : Level := { level with items := item :: level.items }

def branch (level : Level) : Level :=
  { level with
    items := []
    branches := together (level.items.map Item.depth) :: level.branches }

def depth (level : Level) : Nat := together level.branch.branches

end Level

structure Reading where
  level : Level := {}
  outer : List Level := []
  names : List (List Char) := []
  deriving DecidableEq, Repr

namespace Reading

def add (reading : Reading) (item : Item) : Reading :=
  { reading with level := reading.level.add item }

/-- Flags hold until the group ends that they are in. -/
def enter? (reading : Reading) : Opening → Option Reading
  | .flags flags =>
    let level := reading.level.add { repeatable := false }
    some { reading with level := { level with mode := level.mode.change flags } }
  | .group flags name =>
    if name.any reading.names.contains then none
    else some
      { level := { mode := reading.level.mode.change flags }
        outer := reading.level :: reading.outer
        names := name.toList ++ reading.names }

def leave? (reading : Reading) : Option Reading :=
  match reading.outer with
  | [] => none
  | level :: outer =>
    some { reading with level := level.add { depth := 1 + reading.level.depth }, outer }

def repeat? (reading : Reading) : Option Reading :=
  match reading.level.items with
  | ⟨depth, true⟩ :: items =>
    some { reading with level := { reading.level with items := ⟨1 + depth, true⟩ :: items } }
  | _ => none

/-- Read an item, or what stands between items. A count in braces cannot occur,
since the brace that closes it would end the pattern. -/
def next? (reading : Reading) (c : Char) (rest : List Char) : Option (Reading × List Char) := do
  let mode := reading.level.mode
  match c with
  | '(' =>
    let (opening, rest) ← opening? (skip mode rest)
    return (← reading.enter? opening, rest)
  | ')' => return (← reading.leave?, rest)
  | '|' => return ({ reading with level := reading.level.branch }, rest)
  | '[' =>
    let (depth, rest) ← set? mode (rest.length + 1) true {} (← uncaret? mode rest)
    return (reading.add { depth }, rest)
  | '?' | '*' | '+' =>
    return (← reading.repeat?, if rest.head? == some '?' then rest.drop 1 else rest)
  | '\x7b' => none
  | '.' => if mode.unicode then return (reading.add {}, rest) else none
  | '^' | '$' => return (reading.add {}, rest)
  | '\\' =>
    let (escape, rest) ← escape? mode rest
    if escape.isAllowed mode then return (reading.add {}, rest) else none
  | c => if (Escape.literal c false).isAllowed mode then return (reading.add {}, rest) else none

end Reading

/-- Read to the end: how deep the pattern nests. -/
def depth? : Nat → Reading → List Char → Option Nat
  | 0, _, _ => none
  | fuel + 1, reading, text =>
    match skip reading.level.mode text with
    | [] => if reading.outer.isEmpty then some reading.level.depth else none
    | c :: rest => do
      let (reading, rest) ← reading.next? c rest
      depth? fuel reading rest

def isWellFormed (text : List Char) : Bool :=
  (depth? (text.length + 1) {} text).any (· ≤ maxDepth)

end StackCalc.Pattern
