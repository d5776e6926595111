import WslPlus.ConfigFile.Machine

/-!
# What a configuration text says

The reader is the grammar of the file format as a transducer: one phase for
each position inside a line, carrying exactly the data that position still
needs. It has no output text, no line count and no mode, and it composes over
concatenation. `Tracking` shows that the machine follows it.
-/

namespace WslPlus.ConfigFile

inductive Phase where
  | lineStart
  | comment
  | invalid
  | sectionFirst
  | sectionName (name : List UInt8)
  | sectionSpace (name : List UInt8)
  | keyName (name : List UInt8)
  | keySpace (name : List UInt8)
  | valueSpace (name : List UInt8)
  /-- The value is `kept ++ blanks`; the blanks count only if more text follows. -/
  | value (name kept blanks : List UInt8) (inQuote : Bool)
  | escape (name value : List UInt8) (inQuote : Bool)
deriving DecidableEq

/-- `sect` is put before every key name. An invalid header replaces its
characters but keeps its length, as the source does. -/
structure Reader where
  sect : List UInt8
  phase : Phase

abbrev Pair := List UInt8 × List UInt8

namespace Reader

def start : Reader := ⟨[], .lineStart⟩

def isEol (c : WChar) : Bool := c == L '\n' || c == weof

def qualify (r : Reader) (name : List UInt8) : List UInt8 :=
  if r.sect = [] then name else r.sect ++ narrow (L '.') :: name

def reject (r : Reader) (c : WChar) : Reader :=
  ⟨r.sect, if isEol c then .lineStart else .invalid⟩

def spoil (r : Reader) (name : List UInt8) : Reader := ⟨resize name r.sect.length, r.phase⟩

def nextValue (r : Reader) (name kept blanks : List UInt8) (inQuote : Bool) (c : WChar) : Reader :=
  if isEol c then ⟨r.sect, .lineStart⟩
  else if c = L '"' then ⟨r.sect, .value name (kept ++ blanks) [] (!inQuote)⟩
  else if c = L '\\' then ⟨r.sect, .escape name (kept ++ blanks) inQuote⟩
  else if c = L '#' ∧ !inQuote then ⟨r.sect, .comment⟩
  else if isHSpace c then ⟨r.sect, .value name kept (blanks ++ [narrow c]) inQuote⟩
  else ⟨r.sect, .value name (kept ++ blanks ++ [narrow c]) [] inQuote⟩

def escapeText (c : WChar) : Option (List UInt8) :=
  if c = L '\\' ∨ c = L '"' then some [narrow c]
  else if c = L 'b' then some [8]
  else if c = L 'n' then some [10]
  else if c = L 't' then some [9]
  else if c = L '\n' then some []
  else none

def next (r : Reader) (c : WChar) : Reader :=
  match r.phase with
  | .lineStart =>
    if isHSpace c then r
    else if isEol c then r
    else if c = L '#' then ⟨r.sect, .comment⟩
    else if c = L '[' then ⟨r.sect, .sectionFirst⟩
    else if isalpha c then ⟨r.sect, .keyName [narrow c]⟩
    else ⟨r.sect, .invalid⟩
  | .comment => if isEol c then ⟨r.sect, .lineStart⟩ else r
  | .invalid => if isEol c then ⟨r.sect, .lineStart⟩ else r
  | .sectionFirst => if isalpha c then ⟨r.sect, .sectionName [narrow c]⟩ else r.reject c
  | .sectionName name =>
    if isalnum c then ⟨r.sect, .sectionName (name ++ [narrow c])⟩
    else if c = L ']' then ⟨r.sect, .sectionSpace name⟩
    else (r.spoil name).reject c
  | .sectionSpace name =>
    if isHSpace c then r
    else if isEol c then ⟨name, .lineStart⟩
    else if c = L '#' then ⟨name, .comment⟩
    else (r.spoil name).reject c
  | .keyName name =>
    if isalnum c then ⟨r.sect, .keyName (name ++ [narrow c])⟩
    else if isHSpace c then ⟨r.sect, .keySpace name⟩
    else if c = L '=' then ⟨r.sect, .valueSpace name⟩
    else r.reject c
  | .keySpace name =>
    if isHSpace c then r
    else if c = L '=' then ⟨r.sect, .valueSpace name⟩
    else r.reject c
  | .valueSpace name => if isHSpace c then r else r.nextValue name [] [] false c
  | .value name kept blanks inQuote => r.nextValue name kept blanks inQuote c
  | .escape name value inQuote =>
    match escapeText c with
    | some text => ⟨r.sect, .value name (value ++ text) [] inQuote⟩
    | none => ⟨r.sect, .invalid⟩

def pending (r : Reader) : Option Pair :=
  match r.phase with
  | .valueSpace name => some (cstr (r.qualify name), [])
  | .value name kept _ false => some (cstr (r.qualify name), cstr kept)
  | _ => none

/-- The setting reported when `c` is read. -/
def emit (r : Reader) (c : WChar) : List Pair :=
  if isEol c || c == L '#' then r.pending.toList else []

def after (r : Reader) (text : List WChar) : Reader := text.foldl next r

def emits (r : Reader) : List WChar → List Pair
  | [] => []
  | c :: text => r.emit c ++ (r.next c).emits text

def reports (r : Reader) (text : List WChar) : List Pair :=
  r.emits text ++ (r.after text).pending.toList

section

variable (r : Reader)
include r

@[simp] theorem after_nil : r.after [] = r := rfl

@[simp] theorem after_cons (c : WChar) (text : List WChar) :
    r.after (c :: text) = (r.next c).after text := rfl

theorem after_append (xs ys : List WChar) :
    r.after (xs ++ ys) = (r.after xs).after ys := by simp [after]

@[simp] theorem emits_nil : r.emits [] = [] := rfl

@[simp] theorem emits_cons (c : WChar) (text : List WChar) :
    r.emits (c :: text) = r.emit c ++ (r.next c).emits text := rfl

theorem emits_append (xs ys : List WChar) :
    r.emits (xs ++ ys) = r.emits xs ++ (r.after xs).emits ys := by
  induction xs generalizing r with
  | nil => simp
  | cons c xs ih => simp [ih]

theorem reports_append (xs ys : List WChar) :
    r.reports (xs ++ ys) = r.emits xs ++ (r.after xs).reports ys := by
  simp [reports, emits_append, after_append]

@[simp] theorem reports_nil : r.reports [] = r.pending.toList := rfl

@[simp] theorem reports_cons (c : WChar) (text : List WChar) :
    r.reports (c :: text) = r.emit c ++ (r.next c).reports text := by
  simp [reports]

end

end Reader

end WslPlus.ConfigFile
