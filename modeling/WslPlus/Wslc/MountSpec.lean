import Mathlib.Algebra.GroupWithZero.Nat
import WslPlus.Lib.Reorder
import WslPlus.Text.Ascii
import WslPlus.Text.Csv

/-!
# Mount specifications

The parser of a mount of MountSpecParsing.cpp. Each field of the record sets one option, under
one of its names. Options that are known but not supported are remembered, and rejected only
when everything else has been accepted.
-/

namespace WslPlus.Wslc.MountSpecs

open Option Reorder Text

inductive Field where
  | type
  | source
  | target
  | readOnly
  | consistency
  | bindPropagation
  | bindNonRecursive
  | bindRecursive
  | volumeNoCopy
  | volumeLabel
  | volumeDriver
  | volumeOption
  | tmpfsSize
  | tmpfsMode
deriving DecidableEq

inductive Family where
  | general
  | bind
  | volume
  | tmpfs
deriving DecidableEq

inductive Support where
  | supported
  | unsupported
  | valueDependent
deriving DecidableEq

structure FieldDefinition where
  name : List Char
  id : Field
  optionFamily : Family
  allowsBareForm : Bool
  supportLevel : Support

def fieldDefinitions : List FieldDefinition :=
  [⟨"type".toList, Field.type, Family.general, false, Support.valueDependent⟩,
   ⟨"source".toList, Field.source, Family.general, false, Support.supported⟩,
   ⟨"src".toList, Field.source, Family.general, false, Support.supported⟩,
   ⟨"target".toList, Field.target, Family.general, false, Support.supported⟩,
   ⟨"dst".toList, Field.target, Family.general, false, Support.supported⟩,
   ⟨"destination".toList, Field.target, Family.general, false, Support.supported⟩,
   ⟨"readonly".toList, Field.readOnly, Family.general, true, Support.supported⟩,
   ⟨"ro".toList, Field.readOnly, Family.general, true, Support.supported⟩,
   ⟨"consistency".toList, Field.consistency, Family.general, false, Support.unsupported⟩,
   ⟨"bind-propagation".toList, Field.bindPropagation, Family.bind, false, Support.unsupported⟩,
   ⟨"bind-nonrecursive".toList, Field.bindNonRecursive, Family.bind, true, Support.unsupported⟩,
   ⟨"bind-recursive".toList, Field.bindRecursive, Family.bind, false, Support.valueDependent⟩,
   ⟨"volume-nocopy".toList, Field.volumeNoCopy, Family.volume, true, Support.unsupported⟩,
   ⟨"volume-label".toList, Field.volumeLabel, Family.volume, false, Support.unsupported⟩,
   ⟨"volume-driver".toList, Field.volumeDriver, Family.volume, false, Support.unsupported⟩,
   ⟨"volume-opt".toList, Field.volumeOption, Family.volume, false, Support.unsupported⟩,
   ⟨"tmpfs-size".toList, Field.tmpfsSize, Family.tmpfs, false, Support.supported⟩,
   ⟨"tmpfs-mode".toList, Field.tmpfsMode, Family.tmpfs, false, Support.supported⟩]

def findField (name : List Char) : Option FieldDefinition := fieldDefinitions.find? (·.name = name)

/-- `WSLCMountType`, with the values that the enumeration does not name. -/
inductive MountType where
  | bind
  | volume
  | tmpfs
  | other (value : Nat)
deriving DecidableEq

inductive BindSourcePolicy where
  | requireExisting
  | createIfMissing

structure Spec where
  mountType : MountType := MountType.volume
  source : List Char := []
  target : List UInt8 := []
  readOnly : Bool := false
  bindSource : BindSourcePolicy := BindSourcePolicy.requireExisting
  tmpfsSizeBytes : Option Int := none
  tmpfsMode : Option Nat := none
  tmpfsOptions : Option (List UInt8) := none

inductive ValidationError where
  | invalidSpecification
  | duplicateDestination
deriving DecidableEq

/-- The messages of the exceptions, with the texts that they name. -/
inductive Reason where
  | malformedCsv
  | fieldKeyValueRequired (field : List Char)
  | unexpectedKey (key field : List Char)
  | invalidValue (key value : List Char)
  | invalidBindRecursiveValue (key value : List Char)
  | typeRequired
  | optionFamilyMismatch (family type : List Char)
  | optionRequiresReadonly (option : List Char)
  | bindRecursiveReadonlyRequiresPropagation
  | typeUnsupported (type : List Char)
  | optionUnsupported (option : List Char)
  | targetRequired
  | targetAbsolute
  | tmpfsOptionsType
  | tmpfsSizeNegative
  | sourceRequired
  | bindSourceAbsolute
  | volumeSourceInvalid
  | tmpfsSourceUnsupported
  | typeUnsupportedGeneric
  | duplicateMountDestination (destination : List UInt8)
deriving DecidableEq

inductive MountException where
  | parse (reason : Reason)
  | unsupported (reason : Reason)
  | validation (error : ValidationError) (reason : Reason) (destination : List UInt8)
deriving DecidableEq

def SameKind : MountException → MountException → Prop
  | .parse _, .parse _ => True
  | .unsupported _, .unsupported _ => True
  | _, _ => False

/-- What the parser takes from the standard library: the absolute normal form of a path, unless
there is none, and the whole bytes that a fraction or an exponent of a unit come to. -/
structure Library where
  absolutePath : List Char → Option (List Char)
  fractionalSize : (number : List Char) → (multiplier : Nat) → Option Nat

structure KeyValue where
  key : List Char
  value : List Char
  hadSeparator : Bool

def splitKeyValue (value : List Char) : KeyValue :=
  match value.idxOf? '=' with
  | none => ⟨value, [], false⟩
  | some position => ⟨value.take position, value.drop (position + 1), true⟩

/-- `WideToMultiByte` of a C string. -/
def wideToMultiByte (text : List Char) : List UInt8 :=
  (text.takeWhile (· ≠ '\x00')).flatMap String.utf8EncodeChar

def isDecimalDigit (c : Char) : Bool := '0' ≤ c && c ≤ '9'

def memoryUnits : List Char := "kmgtp".toList

def multiplierOf (suffix : List Char) : Option Nat :=
  let normalizedSuffix := asciiToLower suffix
  if suffix = [] ∨ normalizedSuffix = "b".toList then some 1
  else if 3 < normalizedSuffix.length ∨ (normalizedSuffix.length = 2 ∧ normalizedSuffix.drop 1 ≠ "b".toList) ∨
      (normalizedSuffix.length = 3 ∧ normalizedSuffix.drop 1 ≠ "ib".toList) then none
  else (normalizedSuffix.head?.bind memoryUnits.idxOf?).map fun unitIndex => 1024 ^ (unitIndex + 1)

def splitSize (text : List Char) : Option (List Char × List Char) :=
  match text.idxOf? ' ' with
  | some space => some (text.take space, text.drop (space + 1))
  | none =>
    if text.any fun c => isDecimalDigit c || c = '.' then
      some (text.rdropWhile fun c => !(isDecimalDigit c || c = '.'),
        text.rtakeWhile fun c => !(isDecimalDigit c || c = '.'))
    else none

/-- `ParseStorageSize` with binary units. -/
def parseStorageSize (library : Library) (text : List Char) : Option Nat := do
  let (number, suffix) ← splitSize text
  let narrowNumber := if number.head? = some '+' then number.drop 1 else number
  let multiplier ← multiplierOf suffix
  if narrowNumber ≠ [] ∧ narrowNumber.all isDecimalDigit then
    let value := narrowNumber.foldl (fun n c => 10 * n + (c.toNat - '0'.toNat)) 0
    if value < 2 ^ 64 ∧ value ≤ (2 ^ 64 - 1) / multiplier then some (value * multiplier) else none
  else library.fractionalSize narrowNumber multiplier

def parseDockerRamInBytes (library : Library) (value : List Char) : Option Int :=
  match parseStorageSize library value with
  | none => none
  | some parsed => if 2 ^ 63 - 1 < parsed then none else some (Int.ofNat parsed)

def parseDockerTmpfsMode (value : List Char) : Option Nat :=
  if value = [] then none
  else
    value.foldlM (fun result digit =>
      if digit < '0' ∨ '7' < digit then none
      else if 2 ^ 32 - 1 < result * 8 + (digit.toNat - '0'.toNat) then none
      else some (result * 8 + (digit.toNat - '0'.toNat))) 0

def volumeType : List Char := "volume".toList

def bindType : List Char := "bind".toList

def tmpfsType : List Char := "tmpfs".toList

def enabled : List Char := "enabled".toList

def disabled : List Char := "disabled".toList

def writable : List Char := "writable".toList

def readonlyValue : List Char := "readonly".toList

def rprivate : List Char := "rprivate".toList

structure DockerMountSpec where
  type : List Char := volumeType
  source : List Char := []
  target : List Char := []
  readOnly : Bool := false
  hasVolumeOptions : Bool := false
  hasBindOptions : Bool := false
  hasTmpfsOptions : Bool := false
  bindReadOnlyNonRecursive : Bool := false
  bindReadOnlyForceRecursive : Bool := false
  bindPropagation : List Char := []
  tmpfsSizeBytes : Option Int := none
  tmpfsMode : Option Nat := none
  unsupportedOption : Option (List Char) := none

def DockerMountSpec.recordUnsupportedOption (mount : DockerMountSpec) (option : List Char) : DockerMountSpec :=
  if mount.unsupportedOption.isSome then mount else { mount with unsupportedOption := some option }

def DockerMountSpec.recordFamily (mount : DockerMountSpec) (definition : FieldDefinition) (value : List Char) :
    DockerMountSpec :=
  match definition.optionFamily with
  | .general => mount
  | .bind =>
    if definition.id ≠ Field.bindRecursive ∨ value ≠ enabled then { mount with hasBindOptions := true }
    else mount
  | .volume => { mount with hasVolumeOptions := true }
  | .tmpfs => { mount with hasTmpfsOptions := true }

def sourceOf (library : Library) (value : List Char) : List Char :=
  if value = ".".toList ∨ ".\\".toList.isPrefixOf value then (library.absolutePath value).getD value else value

def DockerMountSpec.setOption (library : Library) (mount : DockerMountSpec) (id : Field) (key : List Char)
    (keyValue : KeyValue) : Except MountException DockerMountSpec :=
  match id with
  | .type => .ok { mount with type := asciiToLower keyValue.value }
  | .source => .ok { mount with source := sourceOf library keyValue.value }
  | .target => .ok { mount with target := keyValue.value }
  | .readOnly =>
    if keyValue.hadSeparator = false then .ok { mount with readOnly := true }
    else
      match parseBool keyValue.value true with
      | some parsed => .ok { mount with readOnly := parsed }
      | none => .error (.parse (.invalidValue key keyValue.value))
  | .consistency => .ok mount
  | .bindPropagation => .ok { mount with bindPropagation := asciiToLower keyValue.value }
  | .bindNonRecursive =>
    if keyValue.hadSeparator ∧ parseBool keyValue.value true = none then
      .error (.parse (.invalidValue key keyValue.value))
    else .ok mount
  | .bindRecursive =>
    if keyValue.value = enabled then .ok mount
    else if keyValue.value = disabled then .ok (mount.recordUnsupportedOption key)
    else if keyValue.value = writable then
      .ok { mount.recordUnsupportedOption key with bindReadOnlyNonRecursive := true }
    else if keyValue.value = readonlyValue then
      .ok { mount.recordUnsupportedOption key with bindReadOnlyForceRecursive := true }
    else .error (.parse (.invalidBindRecursiveValue key keyValue.value))
  | .volumeNoCopy =>
    if keyValue.hadSeparator ∧ parseBool keyValue.value true = none then
      .error (.parse (.invalidValue "volume-nocopy".toList keyValue.value))
    else .ok mount
  | .volumeLabel | .volumeDriver | .volumeOption => .ok mount
  | .tmpfsSize =>
    match parseDockerRamInBytes library keyValue.value with
    | some size => .ok { mount with tmpfsSizeBytes := some size }
    | none => .error (.parse (.invalidValue key keyValue.value))
  | .tmpfsMode =>
    match parseDockerTmpfsMode keyValue.value with
    | some mode => .ok { mount with tmpfsMode := some mode }
    | none => .error (.parse (.invalidValue key keyValue.value))

def DockerMountSpec.parseField (library : Library) (mount : DockerMountSpec) (field : List Char) :
    Except MountException DockerMountSpec :=
  let keyValue := splitKeyValue field
  let key := asciiToLower keyValue.key
  match findField key with
  | none =>
    .error (.parse (if keyValue.hadSeparator then .unexpectedKey key field else .fieldKeyValueRequired field))
  | some definition =>
    if keyValue.hadSeparator = false ∧ definition.allowsBareForm = false then
      .error (.parse (.fieldKeyValueRequired field))
    else do
      let mount ← (mount.recordFamily definition keyValue.value).setOption library definition.id key keyValue
      if definition.supportLevel = Support.unsupported then .ok (mount.recordUnsupportedOption key) else .ok mount

def DockerMountSpec.check (mount : DockerMountSpec) : Except MountException Unit :=
  if mount.type = [] then .error (.parse .typeRequired)
  else if mount.hasVolumeOptions ∧ mount.type ≠ volumeType then
    .error (.parse (.optionFamilyMismatch "volume-*".toList mount.type))
  else if mount.hasBindOptions ∧ mount.type ≠ bindType then
    .error (.parse (.optionFamilyMismatch "bind-*".toList mount.type))
  else if mount.hasTmpfsOptions ∧ mount.type ≠ tmpfsType then
    .error (.parse (.optionFamilyMismatch "tmpfs-*".toList mount.type))
  else if mount.bindReadOnlyNonRecursive ∧ mount.readOnly = false then
    .error (.parse (.optionRequiresReadonly "bind-recursive=writable".toList))
  else if mount.bindReadOnlyForceRecursive ∧ mount.readOnly = false then
    .error (.parse (.optionRequiresReadonly "bind-recursive=readonly".toList))
  else if mount.bindReadOnlyForceRecursive ∧ mount.bindPropagation ≠ rprivate then
    .error (.parse .bindRecursiveReadonlyRequiresPropagation)
  else .ok ()

def mountTypeOf (type : List Char) : Except MountException MountType :=
  if type = bindType then .ok .bind
  else if type = volumeType then .ok .volume
  else if type = tmpfsType then .ok .tmpfs
  else .error (.unsupported (.typeUnsupported type))

def DockerMountSpec.rejectUnsupported (mount : DockerMountSpec) : Except MountException Unit :=
  match mount.unsupportedOption with
  | none => .ok ()
  | some option => .error (.unsupported (.optionUnsupported option))

def DockerMountSpec.spec (mount : DockerMountSpec) (type : MountType) : Spec where
  mountType := type
  source := mount.source
  target := wideToMultiByte mount.target
  readOnly := mount.readOnly
  tmpfsSizeBytes := mount.tmpfsSizeBytes
  tmpfsMode := mount.tmpfsMode

def DockerMountSpec.finish (mount : DockerMountSpec) : Except MountException Spec := do
  mount.check
  let type ← mountTypeOf mount.type
  mount.rejectUnsupported
  return mount.spec type

def parseDockerMountString (library : Library) (value : List Char) : Except MountException Spec :=
  match splitCsvFields value with
  | none => .error (.parse .malformedCsv)
  | some fields => fields.foldlM (DockerMountSpec.parseField library) {} >>= DockerMountSpec.finish

def DockerMountSpec.settled (library : Library) (definition : FieldDefinition) (key : List Char)
    (keyValue : KeyValue) (mount : DockerMountSpec) : DockerMountSpec where
  type := if definition.id = Field.type then asciiToLower keyValue.value else mount.type
  source := if definition.id = Field.source then sourceOf library keyValue.value else mount.source
  target := if definition.id = Field.target then keyValue.value else mount.target
  readOnly :=
    if definition.id = Field.readOnly then !keyValue.hadSeparator || parseBool keyValue.value true = some true
    else mount.readOnly
  hasVolumeOptions := mount.hasVolumeOptions || definition.optionFamily = Family.volume
  hasBindOptions :=
    mount.hasBindOptions || (definition.optionFamily = Family.bind &&
      (definition.id ≠ Field.bindRecursive || keyValue.value ≠ enabled))
  hasTmpfsOptions := mount.hasTmpfsOptions || definition.optionFamily = Family.tmpfs
  bindReadOnlyNonRecursive :=
    mount.bindReadOnlyNonRecursive || (definition.id = Field.bindRecursive && keyValue.value = writable)
  bindReadOnlyForceRecursive :=
    mount.bindReadOnlyForceRecursive || (definition.id = Field.bindRecursive && keyValue.value = readonlyValue)
  bindPropagation :=
    if definition.id = Field.bindPropagation then asciiToLower keyValue.value else mount.bindPropagation
  tmpfsSizeBytes :=
    if definition.id = Field.tmpfsSize then parseDockerRamInBytes library keyValue.value else mount.tmpfsSizeBytes
  tmpfsMode := if definition.id = Field.tmpfsMode then parseDockerTmpfsMode keyValue.value else mount.tmpfsMode
  unsupportedOption :=
    mount.unsupportedOption.or
      (if definition.supportLevel = Support.unsupported ∨
          (definition.id = Field.bindRecursive ∧ keyValue.value ≠ enabled) then some key
        else none)

theorem recordUnsupportedOption_eq (mount : DockerMountSpec) (option : List Char) :
    mount.recordUnsupportedOption option =
      { mount with unsupportedOption := mount.unsupportedOption.or (some option) } := by
  unfold DockerMountSpec.recordUnsupportedOption
  cases h : mount.unsupportedOption with
  | none => rfl
  | some other =>
    cases mount
    cases h
    rfl

theorem recordFamily_eq (mount : DockerMountSpec) (definition : FieldDefinition) (value : List Char) :
    mount.recordFamily definition value = { mount with
        hasVolumeOptions := mount.hasVolumeOptions || definition.optionFamily = Family.volume
        hasBindOptions :=
          mount.hasBindOptions || (definition.optionFamily = Family.bind &&
            (definition.id ≠ Field.bindRecursive || value ≠ enabled))
        hasTmpfsOptions := mount.hasTmpfsOptions || definition.optionFamily = Family.tmpfs } := by
  unfold DockerMountSpec.recordFamily
  cases definition.optionFamily with
  | general => simp
  | volume => simp
  | tmpfs => simp
  | bind =>
    by_cases h : definition.id ≠ Field.bindRecursive ∨ value ≠ enabled
    · simp [h]
    · rw [not_or, not_not, not_not] at h
      simp [h.1, h.2]

theorem support_eq (mount : DockerMountSpec) (support : Support) (key : List Char) :
    (if support = Support.unsupported then Except.ok (mount.recordUnsupportedOption key) else Except.ok mount) =
      (Except.ok { mount with
        unsupportedOption := mount.unsupportedOption.or (if support = Support.unsupported then some key else none) } :
        Except MountException DockerMountSpec) := by
  rw [recordUnsupportedOption_eq]
  split
  · rfl
  · rw [or_none]

open DockerMountSpec in
theorem setOption_cases (library : Library) (definition : FieldDefinition) (key : List Char)
    (keyValue : KeyValue) :
    (∀ mount : DockerMountSpec,
      (do
        let mount ← (mount.recordFamily definition keyValue.value).setOption library definition.id key keyValue
        if definition.supportLevel = Support.unsupported then .ok (mount.recordUnsupportedOption key) else .ok mount) =
      (Except.ok (mount.settled library definition key keyValue) : Except MountException DockerMountSpec)) ∨
    ∃ reason, ∀ mount : DockerMountSpec,
      mount.setOption library definition.id key keyValue = .error (.parse reason) := by
  simp only [recordFamily_eq, support_eq]
  obtain ⟨name, id, family, bare, support⟩ := definition
  cases id with
  | type | source | target | consistency | bindPropagation | volumeLabel | volumeDriver | volumeOption =>
    left
    intro mount
    simp [setOption, settled, bind, Except.bind]
  | readOnly =>
    cases hsep : keyValue.hadSeparator with
    | false =>
      left
      intro mount
      simp [setOption, settled, hsep, bind, Except.bind]
    | true =>
      cases hparse : parseBool keyValue.value true with
      | none =>
        right
        exact ⟨.invalidValue key keyValue.value, fun mount => by simp [setOption, hsep, hparse]⟩
      | some parsed =>
        left
        intro mount
        simp [setOption, settled, hsep, hparse, bind, Except.bind]
  | bindNonRecursive | volumeNoCopy =>
    by_cases hbad : keyValue.hadSeparator ∧ parseBool keyValue.value true = none
    · right
      exact ⟨.invalidValue _ keyValue.value, fun mount => if_pos hbad⟩
    · left
      intro mount
      simp [setOption, settled, hbad, bind, Except.bind]
  | bindRecursive =>
    by_cases henabled : keyValue.value = enabled
    · left
      intro mount
      have hw : enabled ≠ writable := by decide
      have hr : enabled ≠ readonlyValue := by decide
      simp [setOption, settled, henabled, hw, hr, bind, Except.bind]
    by_cases hdisabled : keyValue.value = disabled
    · left
      intro mount
      have he : disabled ≠ enabled := by decide
      have hw : disabled ≠ writable := by decide
      have hr : disabled ≠ readonlyValue := by decide
      simp [setOption, settled, hdisabled, he, hw, hr, recordUnsupportedOption_eq, bind, Except.bind]
    by_cases hwritable : keyValue.value = writable
    · left
      intro mount
      have he : writable ≠ enabled := by decide
      have hd : writable ≠ disabled := by decide
      have hr : writable ≠ readonlyValue := by decide
      simp [setOption, settled, hwritable, he, hd, hr, recordUnsupportedOption_eq, bind, Except.bind]
    by_cases hreadonly : keyValue.value = readonlyValue
    · left
      intro mount
      have he : readonlyValue ≠ enabled := by decide
      have hd : readonlyValue ≠ disabled := by decide
      have hw : readonlyValue ≠ writable := by decide
      simp [setOption, settled, hreadonly, he, hd, hw, recordUnsupportedOption_eq, bind, Except.bind]
    · right
      refine ⟨.invalidBindRecursiveValue key keyValue.value, ?_⟩
      intro mount
      simp [setOption, henabled, hdisabled, hwritable, hreadonly]
  | tmpfsSize =>
    cases hparse : parseDockerRamInBytes library keyValue.value with
    | none =>
      right
      exact ⟨.invalidValue key keyValue.value, fun mount => by simp [setOption, hparse]⟩
    | some size =>
      left
      intro mount
      simp [setOption, settled, hparse, bind, Except.bind]
  | tmpfsMode =>
    cases hparse : parseDockerTmpfsMode keyValue.value with
    | none =>
      right
      exact ⟨.invalidValue key keyValue.value, fun mount => by simp [setOption, hparse]⟩
    | some mode =>
      left
      intro mount
      simp [setOption, settled, hparse, bind, Except.bind]

def optionOf (field : List Char) : Option Field :=
  (findField (asciiToLower (splitKeyValue field).key)).map (·.id)

def Apart (field field' : List Char) : Prop := ∀ id, optionOf field = some id → optionOf field' ≠ some id

theorem parseField_cases (library : Library) (field : List Char) :
    (∃ definition, optionOf field = some definition.id ∧ ∀ mount : DockerMountSpec, mount.parseField library field =
      .ok (mount.settled library definition (asciiToLower (splitKeyValue field).key) (splitKeyValue field))) ∨
    ∃ reason, ∀ mount : DockerMountSpec, mount.parseField library field = .error (.parse reason) := by
  simp only [DockerMountSpec.parseField, optionOf]
  cases findField (asciiToLower (splitKeyValue field).key) with
  | none => exact .inr ⟨_, fun _ => rfl⟩
  | some definition =>
    by_cases hbare : (splitKeyValue field).hadSeparator = false ∧ definition.allowsBareForm = false
    · exact .inr ⟨_, fun _ => if_pos hbare⟩
    · simp only [if_neg hbare]
      rcases setOption_cases library definition (asciiToLower (splitKeyValue field).key) (splitKeyValue field) with
        hok | ⟨reason, herror⟩
      · exact .inl ⟨definition, rfl, hok⟩
      · refine .inr ⟨reason, ?_⟩
        intro mount
        rw [herror]
        rfl

/-- The mounts differ at most in the unsupported option that came first. -/
structure Similar (mount mount' : DockerMountSpec) : Prop where
  same : { mount with unsupportedOption := none } = { mount' with unsupportedOption := none }
  unsupported : mount.unsupportedOption.isSome = mount'.unsupportedOption.isSome

theorem similar_equivalence : Equivalence Similar where
  refl _ := ⟨rfl, rfl⟩
  symm h := ⟨h.same.symm, h.unsupported.symm⟩
  trans h h' := ⟨h.same.trans h'.same, h.unsupported.trans h'.unsupported⟩

theorem SameKind.trans (e e' e'' : MountException) (h : SameKind e e') (h' : SameKind e' e'') :
    SameKind e e'' := by
  cases e <;> cases e' <;> cases e'' <;> trivial

variable {mount mount' : DockerMountSpec}

theorem Similar.settled (library : Library) (definition : FieldDefinition) (key : List Char)
    (keyValue : KeyValue) (h : Similar mount mount') :
    Similar (mount.settled library definition key keyValue)
      (mount'.settled library definition key keyValue) := by
  obtain ⟨hsame, hunsup⟩ := h
  cases mount
  cases mount'
  cases hsame
  refine ⟨rfl, ?_⟩
  simp only [DockerMountSpec.settled, isSome_or]
  rw [hunsup]

theorem settled_comm (library : Library) {definition definition' : FieldDefinition}
    (hne : definition.id ≠ definition'.id) (key key' : List Char) (keyValue keyValue' : KeyValue)
    (mount : DockerMountSpec) :
    Similar ((mount.settled library definition key keyValue).settled library definition' key' keyValue')
      ((mount.settled library definition' key' keyValue').settled library definition key keyValue) := by
  have hvalue {α : Type} (owner : Field) (a b c : α) :
      (if definition'.id = owner then a else if definition.id = owner then b else c) =
        if definition.id = owner then b else if definition'.id = owner then a else c := by
    by_cases h' : definition'.id = owner
    · have h : definition.id ≠ owner := fun h => hne (h.trans h'.symm)
      rw [if_pos h', if_neg h, if_pos h']
    · rw [if_neg h', if_neg h']
  constructor
  · simp only [DockerMountSpec.settled, DockerMountSpec.mk.injEq]
    exact ⟨hvalue _ _ _ _, hvalue _ _ _ _, hvalue _ _ _ _, hvalue _ _ _ _, Bool.or_right_comm _ _ _,
      Bool.or_right_comm _ _ _, Bool.or_right_comm _ _ _, Bool.or_right_comm _ _ _, Bool.or_right_comm _ _ _,
      hvalue _ _ _ _, hvalue _ _ _ _, hvalue _ _ _ _, trivial⟩
  · simp only [DockerMountSpec.settled, isSome_or]
    exact Bool.or_right_comm _ _ _

theorem rejectUnsupported_alike (h : Similar mount mount') :
    Alike SameKind Eq mount.rejectUnsupported mount'.rejectUnsupported := by
  have hunsup := h.unsupported
  unfold DockerMountSpec.rejectUnsupported
  cases hm : mount.unsupportedOption with
  | none =>
    rw [hm, isSome_none, eq_comm, isSome_eq_false_iff, isNone_iff_eq_none] at hunsup
    rw [hunsup]
    rfl
  | some option =>
    rw [hm, isSome_some] at hunsup
    obtain ⟨option', hopt'⟩ := isSome_iff_exists.mp hunsup.symm
    rw [hopt']
    trivial

theorem check_cases (mount : DockerMountSpec) :
    mount.check = .ok () ∨ ∃ reason, mount.check = .error (.parse reason) := by
  unfold DockerMountSpec.check
  repeat' split
  all_goals first | exact .inr ⟨_, rfl⟩ | exact .inl rfl

theorem mountTypeOf_cases (type : List Char) :
    (∃ mountType, mountTypeOf type = .ok mountType) ∨
      mountTypeOf type = .error (.unsupported (.typeUnsupported type)) := by
  unfold mountTypeOf
  repeat' split
  all_goals first | exact .inl ⟨_, rfl⟩ | exact .inr rfl

theorem finish_alike (h : Similar mount mount') : Alike SameKind Eq mount.finish mount'.finish := by
  have hcheck : mount.check = mount'.check := by
    have hsame := congrArg DockerMountSpec.check h.same
    exact hsame
  have htype : mount.type = mount'.type := by
    have hsame := congrArg DockerMountSpec.type h.same
    exact hsame
  have hspec : mount.spec = mount'.spec := by
    have hsame := congrArg DockerMountSpec.spec h.same
    exact hsame
  unfold DockerMountSpec.finish
  rw [hcheck, htype, hspec]
  rcases check_cases mount' with hok | ⟨reason, herror⟩
  · rw [hok]
    rcases mountTypeOf_cases mount'.type with ⟨mountType, hmountType⟩ | hunsup
    · rw [hmountType]
      apply (rejectUnsupported_alike h).bind
      intro _ _ _
      rfl
    · rw [hunsup]
      trivial
  · rw [herror]
    trivial

theorem parseField_similar (library : Library) (field : List Char) (h : Similar mount mount') :
    Alike SameKind Similar (mount.parseField library field) (mount'.parseField library field) := by
  rcases parseField_cases library field with ⟨definition, _, hok⟩ | ⟨reason, herror⟩
  · rw [hok, hok]
    exact h.settled library definition _ _
  · rw [herror, herror]
    trivial

theorem parseField_comm (library : Library) (mount : DockerMountSpec) {field field' : List Char}
    (h : Apart field field') :
    Alike SameKind Similar (mount.parseField library field >>= (DockerMountSpec.parseField library · field'))
      (mount.parseField library field' >>= (DockerMountSpec.parseField library · field)) := by
  rcases parseField_cases library field with ⟨definition, hid, hok⟩ | ⟨reason, herror⟩
  · rcases parseField_cases library field' with ⟨definition', hid', hok'⟩ | ⟨reason', herror'⟩
    · rw [hok, hok']
      change Alike SameKind Similar (DockerMountSpec.parseField library _ field')
        (DockerMountSpec.parseField library _ field)
      rw [hok, hok']
      apply settled_comm
      intro heq
      exact h definition.id hid (heq ▸ hid')
    · rw [hok, herror']
      change Alike SameKind Similar (DockerMountSpec.parseField library _ field') (.error _)
      rw [herror']
      trivial
  · rcases parseField_cases library field' with ⟨definition', hid', hok'⟩ | ⟨reason', herror'⟩
    · rw [herror, hok']
      change Alike SameKind Similar (.error _) (DockerMountSpec.parseField library _ field)
      rw [herror]
      trivial
    · rw [herror, herror']
      trivial

/-- Fields that set different options may stand in any order. -/
theorem parseDockerMountString_perm (library : Library) {value value' : List Char}
    {fields fields' : List (List Char)}
    (hfields : splitCsvFields value = some fields) (hfields' : splitCsvFields value' = some fields')
    (hperm : fields.Perm fields') (hapart : fields.Pairwise Apart) :
    Alike SameKind Eq (parseDockerMountString library value) (parseDockerMountString library value') := by
  unfold parseDockerMountString
  rw [hfields, hfields']
  have hloop : Alike SameKind Similar (fields.foldlM (DockerMountSpec.parseField library) {})
      (fields'.foldlM (DockerMountSpec.parseField library) {}) := by
    apply alike_foldlM_perm SameKind.trans similar_equivalence _ _ _ hperm hapart
    · intro field field' h id hid' hid
      exact h id hid hid'
    · intro mount mount' field h
      exact parseField_similar library field h
    · intro mount field field' h
      exact parseField_comm library mount h
  apply hloop.bind
  intro mount mount' h
  exact finish_alike h

theorem parseDockerMountString_perm_readonly :
    let fields := ["type=tmpfs".toList, "dst=/a".toList, "ro".toList]
    fields.Pairwise Apart ∧
      Alike SameKind Eq (parseDockerMountString ⟨some, fun _ _ => none⟩ (joinCsvFields fields))
        (parseDockerMountString ⟨some, fun _ _ => none⟩ (joinCsvFields fields.reverse)) := by
  have hapart : ["type=tmpfs".toList, "dst=/a".toList, "ro".toList].Pairwise Apart := by
    have htype : optionOf "type=tmpfs".toList = some Field.type := by rfl
    have htarget : optionOf "dst=/a".toList = some Field.target := by rfl
    have hreadOnly : optionOf "ro".toList = some Field.readOnly := by rfl
    simp only [List.pairwise_cons, List.mem_cons, List.not_mem_nil, or_false, forall_eq_or_imp, forall_eq, Apart,
      htype, htarget, hreadOnly]
    simp
  exact ⟨hapart, parseDockerMountString_perm _ (splitCsvFields_join_cons _ _) (splitCsvFields_join_cons _ _)
    (List.reverse_perm _).symm hapart⟩

end WslPlus.Wslc.MountSpecs
