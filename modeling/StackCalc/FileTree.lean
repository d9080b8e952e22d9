import StackCalc.Text

/-! Files by their paths. A tree of folders stands for a disk, and a path is walked
through it one step at a time. -/

namespace StackCalc

inductive FileError where
  | missing
  | notDirectory
  | isDirectory
  | nameTooLong
  | denied
  | notText
  | other (description : String)
  deriving DecidableEq, Repr

def FileError.message : FileError → String
  | .missing => "No such file or directory (os error 2)"
  | .denied => "Permission denied (os error 13)"
  | .notDirectory => "Not a directory (os error 20)"
  | .isDirectory => "Is a directory (os error 21)"
  | .nameTooLong => "File name too long (os error 36)"
  | .notText => Utf8.complaint
  | .other description => description

inductive FileTree where
  | file (bytes : List UInt8)
  | folder (entries : List (String × FileTree))
  deriving Inhabited

namespace FileTree

/-- In bytes, for one step of a path and for the whole path. -/
def longestStep : Nat := 255

def longestPath : Nat := 4095

/-- A place in a tree: what is there, and the folders above it, nearest first. -/
structure Place where
  here : FileTree
  above : List FileTree := []

namespace Place

/-- The folder above. There is none above the root. -/
def up (place : Place) : Place :=
  match place.above with
  | [] => place
  | parent :: above => { here := parent, above }

def root (place : Place) : Place :=
  { here := place.above.getLast?.getD place.here }

/-- Take one step of a path. A file can be the end of a path only. -/
def step (place : Place) (name : String) : Except FileError Place :=
  match place.here with
  | .file _ => .error .notDirectory
  | .folder entries =>
    if name = "" ∨ name = "." then .ok place
    else if name = ".." then .ok place.up
    else if longestStep < name.utf8ByteSize then .error .nameTooLong
    else match entries.lookup name with
      | some here => .ok { here, above := place.here :: place.above }
      | none => .error .missing

def walk (place : Place) (path : String) : Except FileError Place :=
  if longestPath < path.utf8ByteSize then .error .nameTooLong
  else (path.splitOn "/").foldlM step (if path.startsWith "/" then place.root else place)

def read (place : Place) (path : String) : Except FileError (List UInt8) := do
  match (← place.walk path).here with
  | .file bytes => .ok bytes
  | .folder _ => .error .isDirectory

end Place

end FileTree

end StackCalc
