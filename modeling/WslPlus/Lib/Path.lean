import Mathlib.Data.List.Basic

/-!
# Windows paths

A path is the list of its components, with the root first, in the form in which
two of them name one file exactly when they are equal: lower case, absolute and
without `.` and `..`. A text is resolved against a directory as a path that is
appended to it.
-/

namespace WslPlus

abbrev Name := List Char

abbrev Path := List Name

namespace Path

def lower (name : Name) : Name := name.map Char.toLower

def isSeparator (c : Char) : Bool := c == '\\' || c == '/'

def components (text : List Char) : List Name :=
  (text.splitOnP isSeparator).filter (!·.isEmpty)

/-- One component after another, with `.` and `..` taken out. -/
def normalize (dir : Path) : List Name → Path
  | [] => dir
  | c :: rest =>
    if c = ['.'] then normalize dir rest
    else if c = ['.', '.'] then normalize (if dir.length ≤ 1 then dir else dir.dropLast) rest
    else normalize (dir ++ [lower c]) rest

def splitRoot (text : List Char) : Option Name × List Char :=
  match text with
  | a :: b :: rest =>
    if b = ':' ∧ a.isAlpha then (some (lower [a, b]), rest)
    else if isSeparator a ∧ isSeparator b ∧ !(rest.head?.any isSeparator) then
      (some (a :: b :: lower (rest.takeWhile (!isSeparator ·))), rest.dropWhile (!isSeparator ·))
    else (none, text)
  | _ => (none, text)

/-- The file that a text names when it is appended to a directory: an absolute
text or one with another root replaces the directory, a rooted one keeps only
its root. -/
def resolve (dir : Path) (text : List Char) : Path :=
  let (root, rest) := splitRoot text
  let rooted := rest.head?.any isSeparator
  match root with
  | some root =>
    if rooted || dir.head? != some root then normalize [root] (components rest)
    else normalize dir (components rest)
  | none => if rooted then normalize (dir.take 1) (components rest) else normalize dir (components rest)

def filename (text : List Char) : Name :=
  lower ((components (splitRoot text).2).getLast?.getD [])

def extension (name : Name) : Name :=
  if '.' ∈ name.tail then '.' :: (name.reverse.takeWhile (· != '.')).reverse else []

def parent (path : Path) : Path := path.dropLast

def Within (dir path : Path) : Prop := dir <+: path

instance (dir path : Path) : Decidable (Within dir path) := inferInstanceAs (Decidable (_ <+: _))

end Path

end WslPlus
