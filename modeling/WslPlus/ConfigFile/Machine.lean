import Mathlib.Data.List.Basic

/-!
# ParseConfigFile as a character machine

The source is one function with five labels and a dozen `fgetwc` calls. Its
control state between two calls is the call that is waiting, so the embedding
is a step function: `resume` runs the code from one `fgetwc` to the next. Each
label of the source is a definition of its own, and a `goto` is a call.

The file is its text: reads do not fail, so the `ferror` exit is absent.
-/

namespace WslPlus.ConfigFile

/-- A UTF-16 code unit, the `wchar_t` of the Windows build. -/
abbrev WChar := UInt16

def L (c : Char) : WChar := c.toNat.toUInt16

def wide (s : String) : List WChar := s.toList.map L

def bytes (s : String) : List UInt8 := s.toList.map fun c => c.toNat.toUInt8

/-- The end-of-file value of `fgetwc`. It is a code unit like any other. -/
def weof : WChar := 0xFFFF

/-- ASCII classification; the value of `isalpha` outside it is not relied on. -/
def isalpha (c : WChar) : Bool := (65 ≤ c && c ≤ 90) || (97 ≤ c && c ≤ 122)

def isalnum (c : WChar) : Bool := isalpha c || (48 ≤ c && c ≤ 57)

def isHSpace (c : WChar) : Bool := c == L ' ' || c == L '\t'

/-- `static_cast<char>` of a wide character. -/
def narrow (c : WChar) : UInt8 := c.toUInt8

/-- `MultiByteToWide` on the ASCII names of configuration keys. -/
def widen (s : List UInt8) : List WChar := s.map UInt8.toUInt16

/-- What `c_str` shows of a `std::string`: everything before the first NUL. -/
def cstr (s : List UInt8) : List UInt8 := s.takeWhile (· != 0)

/-- `std::string::resize`, padding with NUL. -/
def resize (s : List UInt8) (n : Nat) : List UInt8 := s.take n ++ List.replicate (n - s.length) 0

def tolower (b : UInt8) : UInt8 := if 65 ≤ b && b ≤ 90 then b + 32 else b

/-- `strcasecmp(a, b) == 0` on C strings without their terminator. -/
def strcasecmp (a b : List UInt8) : Bool := a.map tolower == b.map tolower

/-- `strncasecmp(a, b, n) == 0` on C strings without their terminator. -/
def strncasecmp : Nat → List UInt8 → List UInt8 → Bool
  | 0, _, _ => true
  | _ + 1, [], [] => true
  | n + 1, a :: as, b :: bs => tolower a == tolower b && strncasecmp n as bs
  | _ + 1, _, _ => false

/-- The names of a key and the text `GetValue` renders for it. -/
structure ConfigKey where
  names : List (List UInt8)
  value : List WChar

def ConfigKey.matches (k : ConfigKey) (name : List UInt8) : Bool :=
  k.names.any fun e => strcasecmp e name

def ConfigKey.matchesLength (k : ConfigKey) (name : List UInt8) (length : Nat) : Bool :=
  k.names.any fun e => strncasecmp length e name

/-- `keyName.find('.')` with the three FAIL_FAST checks on its position. -/
def splitName (name : List WChar) : Option (List WChar × List WChar) :=
  let separator := name.findIdx (· == L '.')
  if separator = name.length then none
  else if separator = 0 then none
  else if separator = name.length - 1 then none
  else some (name.take separator, name.drop (separator + 1))

def ConfigKey.front (k : ConfigKey) : Option (List WChar × List WChar) :=
  k.names.head?.bind fun name => splitName (widen name)

/-- One call of `SetConfig`. -/
structure Setting where
  name : List UInt8
  value : List UInt8
  line : Nat
deriving DecidableEq

inductive Warning where
  | invalidKey (line : Nat)
  | invalidSection (line : Nat)
  | expected (what : String) (line : Nat)
  | invalidEscape (ch : WChar) (line : Nat)
deriving DecidableEq

/-- The arguments of the call that do not change while it runs. -/
structure Args where
  skipInvalidLines : Bool
  hasFile : Bool
  outputKey : Option ConfigKey
  removeKey : Bool

/-- The `fgetwc` call that waits for the next character. -/
inductive Site where
  | comment
  | commentReturn
  | leadingSpace
  | leadingReturn
  | sectionFirst
  | sectionName
  | sectionSpace
  | keyName
  | keySpace
  | valueSpace
  | value
  | escape
  | invalidLine
deriving DecidableEq

inductive Status where
  | reading (site : Site)
  | done (result : Int)
  | failFast

/-- The local variables, the output text, and the calls made so far. -/
structure State where
  ch : WChar
  eof : Bool
  line : Nat
  trailingComment : Bool
  inQuote : Bool
  trimmedLength : Nat
  sectionLength : Nat
  key : List UInt8
  value : List UInt8
  outputKeyValueUpdated : Bool
  matchedKey : Bool
  firstMatchedKey : Bool
  configFileOutput : List WChar
  settings : List Setting
  warnings : List Warning

/-- `std::string key = {0}` is the one-character string holding NUL. -/
def State.initial : State :=
  { ch := 0, eof := false, line := 0, trailingComment := false, inQuote := false,
    trimmedLength := 0, sectionLength := 0, key := [0], value := [0],
    outputKeyValueUpdated := false, matchedKey := false, firstMatchedKey := false,
    configFileOutput := [], settings := [], warnings := [] }

def State.put (s : State) (text : List WChar) : State :=
  { s with configFileOutput := s.configFileOutput ++ text }

/-- `ch = fgetwc(file)`. -/
def State.fetch (s : State) (c : WChar) : State := { s with ch := c }

def State.warn (s : State) (w : Warning) : State := { s with warnings := s.warnings ++ [w] }

def Args.updateConfigFile (a : Args) : Bool := a.outputKey.isSome

/-- `configFileOutput += ch` under `updateConfigFile`. -/
def State.echo (a : Args) (s : State) : State :=
  if a.updateConfigFile then s.put [s.ch] else s

def State.unwritten (a : Args) (s : State) : Bool :=
  a.updateConfigFile && !s.outputKeyValueUpdated && !a.removeKey

def writeNewKeyValue (a : Args) (s : State) : Status × State :=
  match a.outputKey.bind fun k => k.front.map fun f => (k, f) with
  | none => (.failFast, s)
  | some (k, sectionName, keyName) =>
    let s := if a.hasFile then s.put [L '\n'] else s
    let s :=
      if s.sectionLength > 0 && k.matchesLength (cstr s.key) s.sectionLength then s
      else s.put (L '[' :: sectionName ++ [L ']', L '\n'])
    let s := s.put (keyName ++ L '=' :: k.value)
    (.done 0, { s with outputKeyValueUpdated := true })

def checkEof (a : Args) (s : State) : Status × State :=
  if s.eof then
    if s.unwritten a then writeNewKeyValue a s else (.done 0, s)
  else (.reading .leadingSpace, s)

/-- The character that ended the line is written at the head of the NewLine
loop; before the trailing comment of a removed key the newline comes back. -/
def State.flush (a : Args) (s : State) : State :=
  if a.updateConfigFile && s.ch != 0 && s.ch != weof then
    let s := if s.trailingComment && s.matchedKey then s.put [L '\n'] else s
    s.put [s.ch]
  else s

/-- The head of the `for (;;)` loop under NewLine. -/
def newLineLoop (a : Args) (s : State) : Status × State :=
  let s := s.flush a
  if s.ch = L '#' then (.reading .comment, s) else checkEof a s

def newLine (a : Args) (s : State) : Status × State :=
  newLineLoop a (if s.trailingComment then s else { s with line := s.line + 1 })

def invalidLine (a : Args) (s : State) : Status × State :=
  if !a.skipInvalidLines then (.done (-1), s)
  else if s.ch ≠ weof ∧ s.ch ≠ L '\n' then (.reading .invalidLine, s)
  else newLine a s

/-- The five error sites: in update mode the offending character is written
out and `ch` is cleared before the jump. -/
def rejectCharacter (a : Args) (s : State) (w : Warning) : Status × State :=
  let s := s.warn w
  invalidLine a (if a.updateConfigFile then { s.put [s.ch] with ch := 0 } else s)

def commentEnd (a : Args) (s : State) : Status × State :=
  let s := if s.ch = L '\n' then { s with line := s.line + 1 } else s
  if s.ch ≠ L '\n' ∧ s.ch ≠ weof then (.reading .comment, s)
  else checkEof a { s with trailingComment := false }

def onComment (a : Args) (s : State) : Status × State :=
  let s := if s.ch ≠ weof then s.echo a else s
  if s.ch = L '\r' then (.reading .commentReturn, s) else commentEnd a s

/-- The unwritten key-value goes before the next section when the current
section matches: trailing newlines are popped and it is appended. -/
def insertBeforeSection (a : Args) (s : State) : Option State :=
  if s.unwritten a && s.sectionLength > 0 then
    match a.outputKey with
    | none => some s
    | some k =>
      if k.matchesLength (cstr s.key) s.sectionLength then
        k.front.map fun (_, keyName) =>
          let text := (s.configFileOutput.reverse.dropWhile (· == L '\n')).reverse
          { s with
            configFileOutput := text ++ L '\n' :: keyName ++ L '=' :: k.value ++ [L '\n', L '\n'],
            outputKeyValueUpdated := true }
      else some s
  else some s

def parseSection (a : Args) (s : State) : Status × State := (.reading .sectionFirst, s.echo a)

def onSectionFirst (a : Args) (s : State) : Status × State :=
  if !isalpha s.ch then rejectCharacter a s (.invalidSection s.line)
  else
    let s := s.echo a
    (.reading .sectionName, { s with key := [narrow s.ch] })

def onSectionName (a : Args) (s : State) : Status × State :=
  if isalnum s.ch then
    let s := s.echo a
    (.reading .sectionName, { s with key := s.key ++ [narrow s.ch] })
  else if s.ch ≠ L ']' then rejectCharacter a s (.expected "']'" s.line)
  else (.reading .sectionSpace, s.echo a)

def onSectionSpace (a : Args) (s : State) : Status × State :=
  if isHSpace s.ch then (.reading .sectionSpace, s.echo a)
  else if s.ch = weof ∨ s.ch = L '\n' ∨ s.ch = L '\r' then
    newLine a { s with sectionLength := s.key.length }
  else if s.ch = L '#' then
    newLine a { s with trailingComment := true, sectionLength := s.key.length }
  else rejectCharacter a s (.expected "' ' or '\\n'" s.line)

/-- The first character of the key is in `ch`. -/
def parseKeyValue (a : Args) (s : State) : Status × State :=
  let key := resize s.key s.sectionLength
  let key := if key.length > 0 then key ++ [narrow (L '.')] else key
  let s := s.echo a
  (.reading .keyName, { s with key := key ++ [narrow s.ch] })

def onKeySpace (a : Args) (s : State) : Status × State :=
  if isHSpace s.ch then (.reading .keySpace, s.echo a)
  else if s.ch ≠ L '=' then rejectCharacter a s (.expected "'='" s.line)
  else (.reading .valueSpace, s.echo a)

def onKeyName (a : Args) (s : State) : Status × State :=
  if isalnum s.ch then
    let s := s.echo a
    (.reading .keyName, { s with key := s.key ++ [narrow s.ch] })
  else onKeySpace a s

def valueDone (a : Args) (s : State) : Status × State :=
  let s := if s.inQuote then s.warn (.expected "\"" s.line) else s
  if s.inQuote && !s.firstMatchedKey && !s.matchedKey then invalidLine a s
  else if s.firstMatchedKey then
    let text := (a.outputKey.elim [] ConfigKey.value) ++ widen (s.value.drop s.trimmedLength)
    newLine a { s.put text with outputKeyValueUpdated := true }
  else if !s.matchedKey then
    let value := resize s.value s.trimmedLength
    newLine a { s with
      value := value,
      settings := s.settings ++ [⟨cstr s.key, cstr value, s.line⟩] }
  else newLine a s

def valueNext (s : State) : Status × State :=
  (.reading .value, if isHSpace s.ch then s else { s with trimmedLength := s.value.length })

def State.push (s : State) (b : UInt8) : State := { s with value := s.value ++ [b] }

def valueLoop (a : Args) (s : State) : Status × State :=
  if s.ch = weof ∨ s.ch = L '\n' ∨ s.ch = L '\r' then valueDone a s
  else
    let s := if !s.firstMatchedKey && !s.matchedKey && s.ch != L '#' then s.echo a else s
    if s.ch = L '"' then valueNext { s with inQuote := !s.inQuote }
    else if s.ch = L '\\' then (.reading .escape, s)
    else if s.ch = L '#' ∧ !s.inQuote then valueDone a { s with trailingComment := true }
    else valueNext (s.push (narrow s.ch))

def dropLastLine (text : List WChar) : List WChar :=
  if L '\n' ∈ text then ((text.reverse.dropWhile (· != L '\n')).drop 1).reverse else text

def beginValue (a : Args) (s : State) : Status × State :=
  let isKey := a.outputKey.elim false fun k => k.matches (cstr s.key)
  let firstMatchedKey := s.unwritten a && isKey
  let matchedKey := a.updateConfigFile && a.removeKey && isKey
  let output := if matchedKey then dropLastLine s.configFileOutput else s.configFileOutput
  valueLoop a { s with
    firstMatchedKey := firstMatchedKey, matchedKey := matchedKey, configFileOutput := output,
    value := [], trimmedLength := 0, inQuote := false }

def onValueSpace (a : Args) (s : State) : Status × State :=
  if isHSpace s.ch then (.reading .valueSpace, s.echo a) else beginValue a s

/-- `ch` is still the backslash; `ch2` is the escaped character. -/
def onEscape (a : Args) (s : State) (ch2 : WChar) : Status × State :=
  let s :=
    if a.updateConfigFile && !s.firstMatchedKey && !s.matchedKey && ch2 != weof then s.put [ch2]
    else s
  if ch2 = L '\\' ∨ ch2 = L '"' then valueNext (s.push (narrow ch2))
  else if ch2 = L 'b' then valueNext (s.push 8)
  else if ch2 = L 'n' then valueNext (s.push 10)
  else if ch2 = L 't' then valueNext (s.push 9)
  else if ch2 = L '\r' then valueNext s
  else if ch2 = L '\n' then valueNext { s with line := s.line + 1 }
  else
    let s := s.warn (.invalidEscape ch2 s.line)
    if s.firstMatchedKey then valueNext s else invalidLine a s

def onInvalidLine (a : Args) (s : State) : Status × State :=
  let s := if s.ch ≠ weof ∧ s.ch ≠ L '\n' ∧ s.ch ≠ L '\r' then s.echo a else s
  if s.ch ≠ weof ∧ s.ch ≠ L '\n' then (.reading .invalidLine, s) else newLine a s

def onLeadingSpace (a : Args) (s : State) : Status × State :=
  if isHSpace s.ch then (.reading .leadingSpace, s.echo a)
  else if s.ch = weof then newLineLoop a s
  else if s.ch = L '\r' then (.reading .leadingReturn, s)
  else if s.ch = L '\n' then newLineLoop a { s with line := s.line + 1 }
  else if s.ch = L '#' then newLineLoop a s
  else if s.ch = L '[' then
    match insertBeforeSection a s with
    | none => (.failFast, s)
    | some s => parseSection a s
  else if !isalpha s.ch then rejectCharacter a s (.invalidKey s.line)
  else parseKeyValue a s

/-- After a carriage return the next character is either the rest of the line
end or is pushed back, to be read again at the start of the next line. -/
def onLeadingReturn (a : Args) (s : State) (nextc : WChar) : Status × State :=
  if nextc = L '\n' then newLineLoop a { s with line := s.line + 1 }
  else match newLineLoop a s with
    | (.reading _, s) => onLeadingSpace a (s.fetch nextc)
    | r => r

/-- From one `fgetwc` to the next; `c` is the character it returned. -/
def resume (a : Args) (site : Site) (s : State) (c : WChar) : Status × State :=
  match site with
  | .comment => onComment a (s.fetch c)
  | .commentReturn => commentEnd a (s.fetch c)
  | .leadingSpace => onLeadingSpace a (s.fetch c)
  | .leadingReturn => onLeadingReturn a s c
  | .sectionFirst => onSectionFirst a (s.fetch c)
  | .sectionName => onSectionName a (s.fetch c)
  | .sectionSpace => onSectionSpace a (s.fetch c)
  | .keyName => onKeyName a (s.fetch c)
  | .keySpace => onKeySpace a (s.fetch c)
  | .valueSpace => onValueSpace a (s.fetch c)
  | .value => valueLoop a (s.fetch c)
  | .escape => onEscape a s c
  | .invalidLine => onInvalidLine a (s.fetch c)

def step (a : Args) (x : Status × State) (c : WChar) : Status × State :=
  match x.1 with
  | .reading site => resume a site x.2 c
  | _ => x

def scan (a : Args) (x : Status × State) (text : List WChar) : Status × State :=
  text.foldl (step a) x

def readEof (a : Args) (x : Status × State) : Status × State :=
  step a (x.1, { x.2 with eof := true }) weof

/-- No label reads past the end more than three times (`finish_done`). -/
def finish (a : Args) (x : Status × State) : Status × State :=
  readEof a (readEof a (readEof a x))

def parseConfigFile (a : Args) (file : List WChar) : Status × State :=
  if a.hasFile then finish a (scan a (newLine a State.initial) file)
  else if State.initial.unwritten a then writeNewKeyValue a State.initial
  else (.done 0, State.initial)

end WslPlus.ConfigFile
