import Mathlib.Data.Char
import Mathlib.Data.List.Lex
import WslPlus.Lib.SortedMap
import WslPlus.Text.Ascii
import WslPlus.Text.Csv

/-!
# Build outputs

A specification of a build output is one CSV record of keys with values. It is parsed
into a type, a destination and attributes, and written again for the build in the VM.
-/

namespace WslPlus.Cli

open List Text

structure BuildOutput where
  type : List Char
  dest : List Char
  attributes : SortedMap (List Char) (List Char)

/-- MessageWslcOutputInvalidSpec. -/
structure InvalidSpec where
  spec : List Char
  detail : List Char

namespace OutputSpec

def emptyValue : List Char := "the value may not be empty".toList

def malformedQuoting : List Char := "malformed quoting".toList

def expectedPairs : List Char := "expected key=value pairs separated by ','".toList

def directoryExporters : List Char :=
  ("directory exporters are not supported; write a single file with 'dest=<file>' (type=tar/oci/docker) " ++
    "or stream a tarball to stdout with 'type=tar,dest=-'").toList

def typeRequired : List Char := "type is required".toList

def unsupportedType (rawType : List Char) : List Char :=
  "unsupported output type '".toList ++ rawType ++ ['\'']

def invalidBoolean (value : List Char) : List Char :=
  "invalid boolean value '".toList ++ value ++ "' for 'tar'".toList

def supportedTypes : List (List Char) :=
  ["local", "tar", "oci", "docker", "image", "registry", "cacheonly"].map String.toList

/-- The key and the value of a field; none without a `=` or without a key. -/
def readPair (field : List Char) : Option (List Char × List Char) :=
  match field.dropWhile (· ≠ '=') with
  | [] => none
  | _ :: value =>
    let key := asciiToLower (trimAscii (field.takeWhile (· ≠ '=')))
    if key = [] then none else some (key, value)

/-- What the fields have given so far, with the type as it was written. -/
structure Draft where
  output : BuildOutput
  rawType : List Char
  hasType : Bool

def Draft.start : Draft := { output := { type := [], dest := [], attributes := .empty }, rawType := [], hasType := false }

def Draft.add (d : Draft) (key value : List Char) : Draft :=
  if key = "type".toList then
    { d with output := { d.output with type := asciiToLower value }, rawType := value, hasType := true }
  else if key = "dest".toList then { d with output := { d.output with dest := value } }
  else { d with output := { d.output with attributes := d.output.attributes.put key value } }

def addFields : List (List Char) → Draft → Option Draft
  | [], d => some d
  | field :: fields, d =>
    match readPair field with
    | none => none
    | some (key, value) => addFields fields (d.add key value)

end OutputSpec

open OutputSpec

def tarAttribute (output : BuildOutput) : Option (List Char) :=
  if output.type = "oci".toList ∨ output.type = "docker".toList then output.attributes.find "tar".toList
  else none

def outputIsDirectory (output : BuildOutput) : Bool :=
  if output.type = "local".toList then true
  else
    match tarAttribute output with
    | some value => parseBool value true = some false
    | none => false

local instance lawfulBEqListChar : LawfulBEq (List Char) := inferInstance

def OutputSpec.finish (spec : List Char) (d : Draft) : Except InvalidSpec BuildOutput :=
  if !d.hasType ∨ d.output.type = [] then .error ⟨spec, typeRequired⟩
  else if d.output.type ∉ supportedTypes then .error ⟨spec, unsupportedType d.rawType⟩
  else
    match tarAttribute d.output with
    | some value => if parseBool value true = none then .error ⟨spec, invalidBoolean value⟩ else resolve d.output
    | none => resolve d.output
where
  resolve (output : BuildOutput) : Except InvalidSpec BuildOutput :=
    if outputIsDirectory output then .error ⟨spec, directoryExporters⟩
    else if (output.type = "tar".toList ∨ output.type = "oci".toList) ∧ output.dest = [] then
      .ok { output with dest := "-".toList }
    else .ok output

def parseOutputSpec (spec : List Char) : Except InvalidSpec BuildOutput :=
  if spec = [] then .error ⟨spec, emptyValue⟩
  else
    match splitCsvFields spec with
    | none => .error ⟨spec, malformedQuoting⟩
    | some fields =>
      if fields = [spec] ∧ spec.take 5 ≠ "type=".toList then
        if spec = "-".toList then .ok { type := "tar".toList, dest := "-".toList, attributes := .empty }
        else .error ⟨spec, directoryExporters⟩
      else
        match addFields fields .start with
        | none => .error ⟨spec, expectedPairs⟩
        | some d => finish spec d

def pairField (key value : List Char) : List Char := key ++ '=' :: value

def outputFields (output : BuildOutput) : List (List Char) :=
  pairField "type".toList output.type ::
    ((if output.dest = [] then [] else [pairField "dest".toList output.dest]) ++
      output.attributes.entries.map fun e => pairField e.1 e.2)

def formatOutputSpec (output : BuildOutput) : List Char := joinCsvFields (outputFields output)

structure IsKey (key : List Char) : Prop where
  nonempty : key ≠ []
  separate : '=' ∉ key
  normal : asciiToLower (trimAscii key) = key

structure IsAttribute (key : List Char) : Prop extends IsKey key where
  notType : key ≠ "type".toList
  notDest : key ≠ "dest".toList

structure WellFormed (output : BuildOutput) : Prop where
  lower : asciiToLower output.type = output.type
  supported : output.type ∈ supportedTypes
  boolean : ∀ value, tarAttribute output = some value → parseBool value true ≠ none
  file : outputIsDirectory output = false
  dest : output.type = "tar".toList ∨ output.type = "oci".toList → output.dest ≠ []
  keys : ∀ e ∈ output.attributes.entries, IsAttribute e.1

theorem toLower_eq_equals {c : Char} (h : c.toLower = '=') : c = '=' := by
  by_cases hc : c.toNat < 65 ∨ 90 < c.toNat
  · rw [toLower_of_lt hc] at h
    exact h
  · have hnat := toLower_of_upper (c := c) (by omega) (by omega)
    rw [h] at hnat
    have hequals : '='.toNat = 61 := rfl
    omega

theorem equals_not_mem_key (field : List Char) :
    '=' ∉ asciiToLower (trimAscii (field.takeWhile (· ≠ '='))) := by
  intro hmem
  obtain ⟨c, hc, heq⟩ := mem_map.mp hmem
  obtain rfl := toLower_eq_equals heq
  have hdrop := ( rdropWhile_prefix isAsciiSpace _).subset hc
  have htake := (dropWhile_sublist isAsciiSpace).subset hdrop
  have hne := mem_takeWhile_imp htake
  simp at hne

theorem readPair_isKey {field key value : List Char} (h : readPair field = some (key, value)) : IsKey key := by
  unfold readPair at h
  split at h
  · cases h
  · simp only at h
    split at h
    · cases h
    · rename_i hne
      cases h
      exact
        { nonempty := hne
          separate := equals_not_mem_key field
          normal := by rw [trimAscii_asciiToLower, asciiToLower_asciiToLower, trimAscii_trimAscii] }

variable {key : List Char}

theorem readPair_pairField (h : IsKey key) (value : List Char) :
    readPair (pairField key value) = some (key, value) := by
  have hall : ∀ c ∈ key, (decide (c ≠ '=')) = true := by
    intro c hc
    apply decide_eq_true
    rintro rfl
    exact h.separate hc
  have htake : (pairField key value).takeWhile (· ≠ '=') = key := by
    rw [pairField, takeWhile_append_of_pos hall]
    simp
  have hdrop : (pairField key value).dropWhile (· ≠ '=') = '=' :: value := by
    rw [pairField, dropWhile_append_of_pos hall]
    simp
  unfold readPair
  rw [hdrop, htake]
  simp [h.normal, h.nonempty]

structure Draft.Ok (d : Draft) : Prop where
  lower : asciiToLower d.output.type = d.output.type
  keys : ∀ e ∈ d.output.attributes.entries, IsAttribute e.1

variable {d : Draft}

theorem Draft.Ok.add (h : Draft.Ok d) (hkey : IsKey key) (value : List Char) : Draft.Ok (d.add key value) := by
  unfold OutputSpec.Draft.add
  split
  · exact ⟨asciiToLower_asciiToLower value, h.keys⟩
  · rename_i htype
    split
    · exact ⟨h.lower, h.keys⟩
    · rename_i hdest
      refine ⟨h.lower, fun e he => ?_⟩
      rcases SortedMap.mem_put he with rfl | he
      · exact ⟨hkey, htype, hdest⟩
      · exact h.keys e he

theorem Draft.Ok.addFields {fields : List (List Char)} {d d' : Draft} (h : Draft.Ok d)
    (hadd : addFields fields d = some d') : Draft.Ok d' := by
  induction fields generalizing d with
  | nil =>
    cases hadd
    exact h
  | cons field fields ih =>
    unfold OutputSpec.addFields at hadd
    split at hadd
    · cases hadd
    · rename_i key value hpair
      exact ih (h.add (readPair_isKey hpair) value) hadd

variable {spec : List Char} {output : BuildOutput}

theorem resolve_wellFormed (hd : Draft.Ok d) (hsupported : d.output.type ∈ supportedTypes)
    (hboolean : ∀ value, tarAttribute d.output = some value → parseBool value true ≠ none)
    (h : finish.resolve spec d.output = .ok output) : WellFormed output := by
  unfold finish.resolve at h
  split at h
  · cases h
  · rename_i hfile
    have hfile' : outputIsDirectory d.output = false := by simpa using hfile
    split at h
    · cases h
      exact ⟨hd.lower, hsupported, hboolean, hfile', fun _ => by simp, hd.keys⟩
    · rename_i hdest
      cases h
      exact ⟨hd.lower, hsupported, hboolean, hfile', fun htype hnil => hdest ⟨htype, hnil⟩, hd.keys⟩

theorem finish_wellFormed (hd : Draft.Ok d) (h : finish spec d = .ok output) : WellFormed output := by
  unfold finish at h
  split at h
  · cases h
  · split at h
    · cases h
    · rename_i hsupported
      have hsupported' := not_not.mp hsupported
      split at h
      · rename_i value htar
        split at h
        · cases h
        · rename_i hbool
          refine resolve_wellFormed hd hsupported' (fun v hv => ?_) h
          rw [htar] at hv
          cases hv
          exact hbool
      · rename_i htar
        refine resolve_wellFormed hd hsupported' (fun v hv => ?_) h
        rw [htar] at hv
        cases hv

theorem wellFormed_stdout :
    WellFormed { type := "tar".toList, dest := "-".toList, attributes := .empty } where
  lower := by decide
  supported := by decide
  boolean := by
    intro value h
    cases h
  file := rfl
  dest := fun _ => by decide
  keys := by
    intro e he
    cases he

theorem parseOutputSpec_wellFormed (h : parseOutputSpec spec = .ok output) : WellFormed output := by
  unfold parseOutputSpec at h
  split at h
  · cases h
  · split at h
    · cases h
    · split at h
      · split at h
        · cases h
          exact wellFormed_stdout
        · cases h
      · split at h
        · cases h
        · rename_i d hadd
          have hstart : Draft.Ok .start := ⟨rfl, by simp [Draft.start, SortedMap.empty]⟩
          exact finish_wellFormed (hstart.addFields hadd) h

theorem isKey_type : IsKey "type".toList := ⟨by decide, by decide, by decide⟩

theorem isKey_dest : IsKey "dest".toList := ⟨by decide, by decide, by decide⟩

theorem addFields_pairField (h : IsKey key) (value : List Char) (fields : List (List Char)) (d : Draft) :
    addFields (pairField key value :: fields) d = addFields fields (d.add key value) := by
  rw [addFields, readPair_pairField h value]

theorem addFields_attributes {es : List (List Char × List Char)} (h : ∀ e ∈ es, IsAttribute e.1) (d : Draft) :
    addFields (es.map fun e => pairField e.1 e.2) d =
      some { d with output := { d.output with
        attributes := es.foldl (fun m e => m.put e.1 e.2) d.output.attributes } } := by
  induction es generalizing d with
  | nil => rfl
  | cons e es ih =>
    have he := h e mem_cons_self
    rw [map_cons, addFields_pairField he.toIsKey, ih fun e' he' => h e' (mem_cons_of_mem e he')]
    simp only [Draft.add, if_neg he.notType, if_neg he.notDest, foldl_cons]

theorem addFields_outputFields (h : WellFormed output) :
    addFields (outputFields output) .start =
      some { output := output, rawType := output.type, hasType := true } := by
  have hattributes := addFields_attributes h.keys
  rw [outputFields, addFields_pairField isKey_type]
  by_cases hdest : output.dest = []
  · rw [if_pos hdest, nil_append, hattributes]
    simp only [Draft.add, if_pos, Draft.start, h.lower]
    rw [SortedMap.foldl_put_self, ← hdest]
  · have hne : "dest".toList ≠ "type".toList := by decide
    rw [if_neg hdest, singleton_append, addFields_pairField isKey_dest, hattributes]
    simp only [Draft.add, if_pos, if_neg hne, Draft.start, h.lower]
    rw [SortedMap.foldl_put_self]

theorem finish_of_wellFormed (h : WellFormed output) (spec rawType : List Char) :
    finish spec { output, rawType, hasType := true } = .ok output := by
  have hresolve : finish.resolve spec output = .ok output := by
    have hdest : ¬ ((output.type = "tar".toList ∨ output.type = "oci".toList) ∧ output.dest = []) :=
      fun hboth => h.dest hboth.1 hboth.2
    rw [finish.resolve, h.file, if_neg Bool.false_ne_true, if_neg hdest]
  have hempty : output.type ≠ [] := by
    intro hnil
    have hsupported := h.supported
    rw [hnil] at hsupported
    revert hsupported
    decide
  have htype : ¬ ((!true) = true ∨ output.type = []) := by simpa using hempty
  unfold finish
  rw [if_neg htype, if_neg (not_not.mpr h.supported)]
  split
  · rename_i value htar
    rw [if_neg (h.boolean value htar)]
    exact hresolve
  · exact hresolve

theorem parseOutputSpec_of_wellFormed (h : WellFormed output) :
    parseOutputSpec (formatOutputSpec output) = .ok output := by
  obtain ⟨fields, hfield⟩ : ∃ fields, outputFields output = pairField "type".toList output.type :: fields :=
    ⟨_, rfl⟩
  have hsplit : splitCsvFields (formatOutputSpec output) = some (outputFields output) := by
    rw [formatOutputSpec, hfield]
    exact splitCsvFields_join_cons _ _
  have hne : formatOutputSpec output ≠ [] := by
    intro hnil
    rw [hnil] at hsplit
    have hone : splitCsvFields ([] : List Char) = some [[]] := splitCsvFields_last rfl
    rw [hone, hfield] at hsplit
    cases hsplit
  -- A record of one field that is the field itself starts with the type.
  have hlong : ¬ (outputFields output = [formatOutputSpec output] ∧
      (formatOutputSpec output).take 5 ≠ "type=".toList) := by
    rintro ⟨hone, hstart⟩
    rw [hfield] at hone
    have hspec := (List.cons.inj hone).1
    apply hstart
    rw [← hspec]
    rfl
  rw [parseOutputSpec, if_neg hne, hsplit]
  simp only [if_neg hlong, addFields_outputFields h]
  exact finish_of_wellFormed h _ _

/-- A specification that is accepted means the same when it is formatted and parsed again. -/
theorem parse_format_parse
    (h : parseOutputSpec spec = .ok output) : parseOutputSpec (formatOutputSpec output) = .ok output :=
  parseOutputSpec_of_wellFormed (parseOutputSpec_wellFormed h)

namespace OutputSpec

def annotated : List Char := "Type=OCI,\" Name =a,b\"".toList

def annotatedOutput : BuildOutput where
  type := "oci".toList
  dest := "-".toList
  attributes := SortedMap.empty.put "name".toList "a,b".toList

theorem parse_annotated : parseOutputSpec annotated = .ok annotatedOutput := by
  have hjoin : annotated = joinCsvFields ["Type=OCI".toList, " Name =a,b".toList] := by decide
  have hsplit := splitCsvFields_join_cons "Type=OCI".toList [" Name =a,b".toList]
  rw [← hjoin] at hsplit
  rw [parseOutputSpec, hsplit]
  rfl

end OutputSpec

theorem parse_format_parse_annotated :
    parseOutputSpec annotated = .ok annotatedOutput ∧
      parseOutputSpec (formatOutputSpec annotatedOutput) = .ok annotatedOutput :=
  ⟨parse_annotated, parse_format_parse parse_annotated⟩

end WslPlus.Cli
