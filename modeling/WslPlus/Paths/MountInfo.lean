import WslPlus.Lib.CString

/-!
# Lines of mountinfo

mountutil.c cuts a line of mountinfo into fields with `strtok_r`, which takes a run of separators
for one, and undoes the octal escapes of three of the fields. The kernel separates the fields by
one blank each, so that an empty field is skipped and the next field is read in its place.
-/

namespace WslPlus.Paths.MountInfo

open List CString

def blank : UInt8 := 0x20

def newline : UInt8 := 0x0a

def backslash : UInt8 := 0x5c

def hyphen : Bytes := [0x2d]

/-- `strtok_r` with one separator: the token, and what is saved for the next call. -/
def strtok (separator : UInt8) (line : Bytes) : Option Bytes × Bytes :=
  let text := line.dropWhile (· = separator)
  if text = [] then (none, [])
  else (some (text.takeWhile (· ≠ separator)), (text.dropWhile (· ≠ separator)).drop 1)

inductive MountField where
  | id
  | parentId
  | device
  | root
  | mountPoint
  | mountOptions
  | optionalFields
  | fileSystemType
  | source
  | superOptions
deriving DecidableEq

def mountNextField (line : Bytes) (field : MountField) : Option Bytes × Bytes :=
  if field ≠ MountField.superOptions then strtok blank line else strtok newline line

def isDigit (c : UInt8) : Bool := 0x30 ≤ c && c ≤ 0x39

def atoi (text : Bytes) : Int :=
  let number := text.dropWhile fun c => c = blank || (0x09 ≤ c && c ≤ 0x0d)
  let digits := if number.head? = some 0x2d ∨ number.head? = some 0x2b then number.drop 1 else number
  let value := (digits.takeWhile isDigit).foldl (fun n c => 10 * n + (c.toNat - 0x30)) 0
  if number.head? = some 0x2d then - Int.ofNat value else Int.ofNat value

def mountParseDevice (field : Bytes) : Option (Int × Int) :=
  if 0x3a ∈ field then some (atoi (field.takeWhile (· ≠ 0x3a)), atoi ((field.dropWhile (· ≠ 0x3a)).drop 1)) else none

/-- `MOUNT_ENTRY`, before anything is read. -/
structure MountEntry where
  id : Int := 0
  parentId : Int := 0
  device : Int × Int := (0, 0)
  root : Bytes := []
  mountPoint : Bytes := []
  mountOptions : Bytes := []
  fileSystemType : Bytes := []
  source : Bytes := []
  superOptions : Bytes := []

variable {separator : UInt8}

theorem strtok_some {line token rest : Bytes} (h : strtok separator line = (some token, rest)) :
    token ≠ [] ∧ separator ∉ token ∧
      ∃ skipped tail, line = skipped ++ token ++ tail ∧ (tail = [] ∧ rest = [] ∨ tail = separator :: rest) := by
  simp only [strtok] at h
  split at h
  · cases h
  · rename_i hne
    cases h
    refine ⟨?_, ?_, line.takeWhile (· = separator),
      (line.dropWhile (· = separator)).dropWhile (· ≠ separator), ?_, ?_⟩
    · obtain ⟨c, text, htext⟩ := exists_cons_of_ne_nil hne
      have hc : c ≠ separator := by simpa [htext] using head_dropWhile_not (· = separator) hne
      rw [htext, takeWhile_cons, if_pos (decide_eq_true hc)]
      exact cons_ne_nil _ _
    · intro hmem
      simpa using mem_takeWhile_imp hmem
    · rw [append_assoc, takeWhile_append_dropWhile, takeWhile_append_dropWhile]
    · cases htail : (line.dropWhile (· = separator)).dropWhile (· ≠ separator) with
      | nil => exact .inl ⟨rfl, rfl⟩
      | cons c tail =>
        have hne' : (line.dropWhile (· = separator)).dropWhile (· ≠ separator) ≠ [] := by
          rw [htail]
          exact cons_ne_nil _ _
        have hhead := head_dropWhile_not (fun c => decide (c ≠ separator)) hne'
        simp only [htail, head_cons] at hhead
        have hc : c = separator := by simpa using hhead
        exact .inr (by rw [hc, drop_one, tail_cons])

theorem strtok_length {line token rest : Bytes} (h : strtok separator line = (some token, rest)) :
    rest.length < line.length := by
  obtain ⟨hne, _, skipped, tail, rfl, htail⟩ := strtok_some h
  have hpos := length_pos_iff.mpr hne
  rw [length_append, length_append]
  rcases htail with ⟨_, rfl⟩ | rfl
  · rw [length_nil]
    omega
  · rw [length_cons]
    omega

def skipOptionalFields (current : Option Bytes) (line : Bytes) : Bytes :=
  match current with
  | none => line
  | some token =>
    if token = hyphen then line
    else
      match _h : strtok blank line with
      | (none, rest) => rest
      | (some next, rest) => skipOptionalFields (some next) rest
termination_by line.length
decreasing_by exact strtok_length _h

def parseField (entry : MountEntry) (field : MountField) (current line : Bytes) : Option (MountEntry × Bytes) :=
  match field with
  | .id => some ({ entry with id := atoi current }, line)
  | .parentId => some ({ entry with parentId := atoi current }, line)
  | .device => (mountParseDevice current).map fun device => ({ entry with device := device }, line)
  | .root => some ({ entry with root := current }, line)
  | .mountPoint => some ({ entry with mountPoint := current }, line)
  | .mountOptions => some ({ entry with mountOptions := current }, line)
  | .optionalFields => some (entry, skipOptionalFields (some current) line)
  | .fileSystemType => some ({ entry with fileSystemType := current }, line)
  | .source => some ({ entry with source := current }, line)
  | .superOptions => some ({ entry with superOptions := current }, line)

def parseFields : List MountField → Bytes → MountEntry → Option MountEntry
  | [], _, entry => some entry
  | field :: fields, line, entry =>
    match mountNextField line field with
    | (none, _) => none
    | (some current, rest) =>
      match parseField entry field current rest with
      | none => none
      | some (entry', rest') => parseFields fields rest' entry'

def mountFields : List MountField :=
  [MountField.id, MountField.parentId, MountField.device, MountField.root, MountField.mountPoint,
    MountField.mountOptions, MountField.optionalFields, MountField.fileSystemType, MountField.source,
    MountField.superOptions]

def isOctalDigit (c : UInt8) : Bool := 0x30 ≤ c && c ≤ 0x37

def mountFieldUnescapeOctal : Bytes → Option UInt8
  | a :: b :: c :: _ =>
    if isOctalDigit a && isOctalDigit b && isOctalDigit c then
      some ((((a - 0x30) <<< 3 ||| (b - 0x30)) <<< 3) ||| (c - 0x30))
    else none
  | _ => none

/-- What the loop writes. It writes no further than it has read, so that the rest of the field is as
it was. -/
def unescaped : Bytes → Bytes
  | [] => []
  | c :: field =>
    if c = backslash then
      match mountFieldUnescapeOctal field with
      | some character => character :: unescaped (field.drop 3)
      | none => c :: unescaped field
    else c :: unescaped field
termination_by field => field.length
decreasing_by
  · simp only [List.length_drop, length_cons]
    omega
  · simp
  · simp

def mountFieldUnescape (field : Bytes) : Bytes := cString (unescaped field)

def mountParseMountInfoLine (line : Bytes) : Option MountEntry :=
  (parseFields mountFields line {}).map fun entry =>
    { entry with
      root := mountFieldUnescape entry.root
      source := mountFieldUnescape entry.source
      mountPoint := mountFieldUnescape entry.mountPoint }

def isPlain (c : UInt8) : Bool := c ≠ 0 && c ≠ blank && c ≠ 0x09 && c ≠ newline && c ≠ backslash

/-- A field in which nothing has to be escaped. -/
structure Word where
  text : Bytes
  nonempty : text ≠ []
  plain : text.all isPlain = true

structure Mount where
  id : Word
  parentId : Word
  device : Word
  numbers : 0x3a ∈ device.text
  root : Bytes
  mountPoint : Bytes
  mountOptions : Word
  optionalFields : List Word
  optional : ∀ field ∈ optionalFields, field.text ≠ hyphen
  fileSystemType : Word
  source : Bytes
  superOptions : Bytes
  terminated : 0 ∉ root ∧ 0 ∉ mountPoint ∧ 0 ∉ source

def escapedCharacters : Bytes := [blank, 0x09, newline, backslash]

def octal (c : UInt8) : Bytes := [0x30 + c / 64, 0x30 + c / 8 % 8, 0x30 + c % 8]

def escapeCharacter (c : UInt8) : Bytes := if c ∈ escapedCharacters then backslash :: octal c else [c]

def escaped (text : Bytes) : Bytes := text.flatMap escapeCharacter

def Mount.line (mount : Mount) : Bytes :=
  mount.id.text ++ blank :: (mount.parentId.text ++ blank :: (mount.device.text ++ blank :: (escaped mount.root ++
    blank :: (escaped mount.mountPoint ++ blank :: (mount.mountOptions.text ++ blank ::
      (mount.optionalFields.flatMap (fun field => field.text ++ [blank]) ++ (hyphen ++ blank ::
        (mount.fileSystemType.text ++ blank ::
          (escaped mount.source ++ blank :: (mount.superOptions ++ [newline]))))))))))

def Mount.Decoded (mount : Mount) : Prop :=
  ∃ entry, mountParseMountInfoLine mount.line = some entry ∧ entry.root = mount.root ∧
    entry.mountPoint = mount.mountPoint ∧ entry.fileSystemType = mount.fileSystemType.text ∧
    entry.source = mount.source ∧ entry.superOptions = mount.superOptions

variable {text : Bytes}

variable {field : MountField}

section Line

variable (mount : Mount)

end Line

end WslPlus.Paths.MountInfo
