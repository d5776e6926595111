import WslPlus.Lib.Transition
import WslPlus.Lib.Yaml

/-!
# The device store

devices.yaml holds the devices with the instance each is bound to and the policy of the
binding. `Remove` writes neither of them for the devices that it keeps, and they are read
again as their defaults.
-/

namespace WslPlus.Store.Devices

open Function Yaml

inductive Policy where
  | manual
  | auto
  | dedicated
deriving DecidableEq

def policyToString : Policy → Text
  | .auto => "auto".toList
  | .dedicated => "dedicated".toList
  | .manual => "manual".toList

def policyFromString (s : Text) : Policy :=
  if s = "auto".toList then .auto else if s = "dedicated".toList then .dedicated else .manual

structure DeviceConfig where
  id : Text
  type : Text
  hostPath : Text
  inst : Text
  policy : Policy
deriving DecidableEq

def parseDevice (node : Yaml.Node) : Option DeviceConfig := do
  let id ← node.subscript "id".toList
  let type ← node.subscript "type".toList
  let hostPath ← node.subscript "host".toList
  let inst ← node.subscript "instance".toList
  let policy ← node.subscript "policy".toList
  some { id := asStringOr [] id, type := asStringOr "usb".toList type, hostPath := asStringOr [] hostPath,
         inst := asStringOr [] inst, policy := policyFromString (asStringOr "manual".toList policy) }

def parseDocument (root : Yaml.Node) : Option (List DeviceConfig) := do
  match ← root.subscript "devices".toList with
  | none => some []
  | some devices => devices.items.bind (·.mapM parseDevice)

def load : File → Option (List DeviceConfig)
  | none => some []
  | some root => parseDocument root

def validate (config : DeviceConfig) : Bool :=
  config.id ≠ [] && config.hostPath ≠ [] &&
    (config.type = "usb".toList || config.type = "serial".toList || config.type = "parallel".toList)

def deviceNode (d : DeviceConfig) : Yaml.Node :=
  .map [("id".toList, .scalar d.id), ("type".toList, .scalar d.type), ("host".toList, .scalar d.hostPath),
    ("instance".toList, .scalar d.inst), ("policy".toList, .scalar (policyToString d.policy))]

def document (nodes : List Yaml.Node) : File := some (.map [("devices".toList, .sequence nodes)])

def save (config : DeviceConfig) (file : File) : Effect :=
  if validate config = false then .throws
  else
    match load file with
    | none => .throws
    | some all => .writes (document ((Keyed.put DeviceConfig.id config all).map deviceNode))

/-- What `Remove` writes of a device that it keeps. -/
def keptNode (d : DeviceConfig) : Yaml.Node :=
  .map [("id".toList, .scalar d.id), ("type".toList, .scalar d.type), ("host".toList, .scalar d.hostPath)]

def remove (id : Text) (file : File) : Effect :=
  match load file with
  | none => .throws
  | some all =>
    let kept := Keyed.erase DeviceConfig.id id all
    if kept.length = all.length then .throws
    else if kept = [] then .writes none
    else .writes (document (kept.map keptNode))

def setPolicy (id : Text) (policy : Policy) (inst : Text) (file : File) : Effect :=
  match load file with
  | none => .throws
  | some all =>
    match Keyed.lookup DeviceConfig.id all id with
    | none => .throws
    | some d => save { d with policy, inst } file

inductive Call where
  | save (config : DeviceConfig)
  | remove (id : Text)
  | setPolicy (id : Text) (policy : Policy) (inst : Text)

/-- A call, and whether the file can be opened or removed when it comes to that. -/
structure Request where
  call : Call
  opens : Bool

def Call.effect (call : Call) (file : File) : Effect :=
  match call with
  | .save config => Devices.save config file
  | .remove id => Devices.remove id file
  | .setPolicy id policy inst => Devices.setPolicy id policy inst file

def step (r : Request) (file : File) : File := ((r.call.effect file).perform r.opens file).2

abbrev DeviceMap := Text → Option DeviceConfig

def DeviceMap.perform (call : Call) (a : DeviceMap) : DeviceMap :=
  match call with
  | .save config => if validate config then update a config.id (some config) else a
  | .remove id => update a id none
  | .setPolicy id policy inst => update a id ((a id).map fun d => { d with policy, inst })

def DeviceMap.step (r : Request) (a : DeviceMap) :
    DeviceMap := if r.opens then DeviceMap.perform r.call a else a

/-- `Load` returns what the store holds. -/
def Holds (file : File) (a : DeviceMap) : Prop :=
  ∃ all, load file = some all ∧ Keyed.Distinct DeviceConfig.id all ∧ Keyed.lookup DeviceConfig.id all = a

def Unbound (d : DeviceConfig) : Prop := d.inst = [] ∧ d.policy = .manual

/-- The devices that `Remove` keeps are unbound. -/
def Keeps (r : Request) (file : File) : Prop :=
  match r.call with
  | .save _ => True
  | .remove id => r.opens = true → ∀ all, load file = some all → (∃ d ∈ all, d.id = id) →
      ∀ d ∈ all, d.id ≠ id → Unbound d
  | .setPolicy _ _ _ => True

theorem policyFromString_toString (p : Policy) : policyFromString (policyToString p) = p := by
  cases p <;> rfl

theorem parseDevice_deviceNode (d : DeviceConfig) : parseDevice (deviceNode d) = some d := by
  obtain ⟨id, type, hostPath, inst, policy⟩ := d
  simp [parseDevice, deviceNode, Yaml.Node.subscript, Keyed.value, policyFromString_toString]

/-- A device as `Remove` keeps it. -/
def strip (d : DeviceConfig) : DeviceConfig := { d with inst := [], policy := .manual }

theorem parseDevice_keptNode (d : DeviceConfig) : parseDevice (keptNode d) = some (strip d) := rfl

theorem load_document (nodes : List Yaml.Node) : load (document nodes) = nodes.mapM parseDevice := rfl

theorem load_saved (all : List DeviceConfig) : load (document (all.map deviceNode)) = some all := by
  rw [load_document]
  exact mapM_parse parseDevice_deviceNode all

theorem load_kept (all : List DeviceConfig) : load (document (all.map keptNode)) = some (all.map strip) := by
  rw [load_document]
  exact mapM_written parseDevice_keptNode all

/-- A file that is read, with devices that have been checked, under different ids. -/
structure Stored where
  file : File
  all : List DeviceConfig
  load : load file = some all
  distinct : Keyed.Distinct DeviceConfig.id all
  valid : ∀ d ∈ all, validate d = true

def after (r : Request) (all : List DeviceConfig) : List DeviceConfig :=
  if r.opens = false then all
  else
    match r.call with
    | .save config => if validate config then Keyed.put DeviceConfig.id config all else all
    | .remove id =>
      if Keyed.lookup DeviceConfig.id all id = none then all else (Keyed.erase DeviceConfig.id id all).map strip
    | .setPolicy id policy inst =>
      match Keyed.lookup DeviceConfig.id all id with
      | none => all
      | some d => Keyed.put DeviceConfig.id { d with policy, inst } all

variable {file : File} {all : List DeviceConfig}

theorem load_save (hload : load file = some all) (config : DeviceConfig)
    (opens : Bool) : load (((save config file).perform opens file).2) =
      some (if opens = true ∧ validate config = true then Keyed.put DeviceConfig.id config all else all) := by
  cases opens <;> cases hvalid : validate config <;> simp [save, hvalid, hload, Effect.perform, load_saved]

theorem load_remove (hload : load file = some all) (id : Text) (opens : Bool) :
    load (((remove id file).perform opens file).2) = some (after ⟨.remove id, opens⟩ all) := by
  simp only [remove, hload, Keyed.length_erase_iff, after]
  by_cases hnone : Keyed.lookup DeviceConfig.id all id = none
  · cases opens <;> simp [hnone, Effect.perform, hload]
  · by_cases hnil : Keyed.erase DeviceConfig.id id all = []
    · have hempty : load none = some [] := rfl
      cases opens <;> simp [hnone, hnil, Effect.perform, hload, hempty]
    · cases opens <;> simp [hnone, hnil, Effect.perform, hload, load_kept]

theorem load_step (hload : load file = some all)
    (hvalid : ∀ d ∈ all, validate d = true) (r : Request) : load (step r file) = some (after r all) := by
  obtain ⟨call, opens⟩ := r
  cases call with
  | save config =>
    rw [step, Call.effect, load_save hload]
    cases opens <;> simp [after]
  | remove id => exact load_remove hload id opens
  | setPolicy id policy inst =>
    simp only [step, Call.effect, setPolicy, hload, after]
    cases hlookup : Keyed.lookup DeviceConfig.id all id with
    | none => cases opens <;> simp [Effect.perform, hload]
    | some d =>
      -- The check reads neither the policy nor the instance.
      have hsame : validate { d with policy, inst } = true := hvalid d (Keyed.mem_of_lookup hlookup)
      simp only [load_save hload, hsame]
      cases opens <;> simp

theorem distinct_after (h : Keyed.Distinct DeviceConfig.id all) (r : Request) :
    Keyed.Distinct DeviceConfig.id (after r all) := by
  unfold after
  split
  · exact h
  · split
    · split
      · exact Keyed.distinct_put h
      · exact h
    · split
      · exact h
      · exact Keyed.distinct_map (fun _ => rfl) (Keyed.distinct_erase h)
    · split
      · exact h
      · exact Keyed.distinct_put h

theorem valid_put {config : DeviceConfig} (h : ∀ d ∈ all, validate d = true)
    (hvalid : validate config = true) : ∀ d ∈ Keyed.put DeviceConfig.id config all, validate d = true := by
  intro d hd
  rcases List.mem_append.mp hd with hd | hd
  · exact h d (Keyed.mem_erase.mp hd).1
  · rw [List.mem_singleton.mp hd, hvalid]

theorem valid_after (h : ∀ d ∈ all, validate d = true) (r : Request) :
    ∀ d ∈ after r all, validate d = true := by
  unfold after
  split
  · exact h
  · split
    · split
      · rename_i hvalid
        exact valid_put h hvalid
      · exact h
    · split
      · exact h
      · intro d hd
        obtain ⟨d', hd', rfl⟩ := List.mem_map.mp hd
        exact h d' (Keyed.mem_erase.mp hd').1
    · split
      · exact h
      · rename_i d hlookup
        exact valid_put h (h d (Keyed.mem_of_lookup hlookup))

def Stored.after (start : Stored) (r : Request) : Stored where
  file := step r start.file
  all := Devices.after r start.all
  load := load_step start.load start.valid r
  distinct := distinct_after start.distinct r
  valid := valid_after start.valid r

theorem strip_eq_iff (d : DeviceConfig) : strip d = d ↔ Unbound d := by
  obtain ⟨id, type, hostPath, inst, policy⟩ := d
  simp only [strip, Unbound, DeviceConfig.mk.injEq, true_and]
  exact and_congr eq_comm eq_comm

theorem lookup_after_iff (start : Stored) (r : Request) :
    Keyed.lookup DeviceConfig.id (start.after r).all = DeviceMap.step r
      (Keyed.lookup DeviceConfig.id start.all) ↔
      Keeps r start.file := by
  obtain ⟨call, opens⟩ := r
  cases opens with
  | false => cases call <;> simp [Stored.after, after, DeviceMap.step, Keeps]
  | true =>
    cases call with
    | save config =>
      cases hvalid : validate config <;>
        simp [Stored.after, after, DeviceMap.step, DeviceMap.perform, hvalid, Keeps, Keyed.lookup_put_eq_update]
    | remove id =>
      by_cases hnone : Keyed.lookup DeviceConfig.id start.all id = none
      · have hsame : update (Keyed.lookup DeviceConfig.id start.all) id none =
            Keyed.lookup DeviceConfig.id start.all := update_eq_self_iff.mpr hnone.symm
        have habsent := Keyed.lookup_eq_none_iff.mp hnone
        have hkeeps : Keeps ⟨.remove id, true⟩ start.file := by
          rintro - all hload ⟨d, hd, heq⟩
          rw [start.load] at hload
          cases hload
          exact (habsent d hd heq).elim
        simp [Stored.after, after, DeviceMap.step, DeviceMap.perform, hkeeps, hnone, hsame]
      · have hpresent : ∃ d ∈ start.all, d.id = id := Keyed.exists_key_iff.mpr hnone
        have hid : ∀ d, (strip d).id = d.id := fun _ => rfl
        simp only [Stored.after, after, DeviceMap.step, DeviceMap.perform, if_neg hnone, if_true, Bool.true_eq_false,
          if_false, Keyed.lookup_kept_iff hid start.distinct, strip_eq_iff, Keeps, start.load, Option.some.injEq,
          true_imp_iff, forall_eq', hpresent]
    | setPolicy id policy inst =>
      cases hlookup : Keyed.lookup DeviceConfig.id start.all id with
      | none =>
        have hsame : update (Keyed.lookup DeviceConfig.id start.all) id none =
            Keyed.lookup DeviceConfig.id start.all := update_eq_self_iff.mpr hlookup.symm
        simp [Stored.after, after, DeviceMap.step, DeviceMap.perform, Keeps, hlookup, hsame]
      | some d =>
        have hid := Keyed.key_of_lookup hlookup
        simp [Stored.after, after, DeviceMap.step, DeviceMap.perform, Keeps, hlookup, Keyed.lookup_put_eq_update, hid]

theorem holds_iff (start : Stored) (a : DeviceMap) :
    Holds start.file a ↔ Keyed.lookup DeviceConfig.id start.all = a := by
  constructor
  · rintro ⟨all, hload, -, hlookup⟩
    rw [start.load] at hload
    cases hload
    exact hlookup
  · intro h
    exact ⟨start.all, start.load, start.distinct, h⟩

/-- A call that throws changes nothing. Each file of a run holds the devices that the same calls have
made of a map, exactly if the devices that `Remove` keeps are unbound. -/
theorem devices_hold_along_iff (start : Stored) (requests : List Request) :
    (∀ (r : Request) (file : File), ((r.call.effect file).perform r.opens file).1 = false → step r file = file) ∧
    ((∀ n, Holds (runSteps step (requests.take n) start.file)
        (runSteps DeviceMap.step (requests.take n) (Keyed.lookup DeviceConfig.id start.all))) ↔
      Allowed step Keeps requests start.file) := by
  refine ⟨fun r file h => Effect.perform_throws r.opens file _ h, ?_⟩
  have hinv : ∀ (r : Request) (file : File), (∃ start : Stored, file = start.file) →
      ∃ start : Stored, step r file = start.file := by
    rintro r file ⟨start, rfl⟩
    exact ⟨start.after r, rfl⟩
  refine refines_iff_allowed hinv ?_ ⟨start, rfl⟩ ((holds_iff start _).mpr rfl)
  rintro r file a ⟨start, rfl⟩ ha
  rw [holds_iff] at ha
  rw [← ha, ← lookup_after_iff]
  exact holds_iff (start.after r) _

def camera : DeviceConfig := ⟨"usb:1".toList, "usb".toList, "usb:1".toList, "Ubuntu".toList, .dedicated⟩

def port : DeviceConfig := ⟨"COM3".toList, "serial".toList, "COM3".toList, [], .manual⟩

/-- A device is removed, and another one is no longer bound to its instance. -/
theorem remove_forgets_policy :
    (∃ requests, ¬ Holds (runSteps step requests none) (runSteps DeviceMap.step requests fun _ => none)) ∧
    load (runSteps step [⟨.save camera, true⟩, ⟨.save port, true⟩, ⟨.remove port.id, true⟩] none) =
      some [{ camera with inst := [], policy := .manual }] := by
  refine ⟨⟨[⟨.save camera, true⟩, ⟨.save port, true⟩, ⟨.remove port.id, true⟩], ?_⟩, by decide⟩
  rintro ⟨all, hload, -, hlookup⟩
  have hread : load (runSteps step [⟨.save camera, true⟩, ⟨.save port, true⟩, ⟨.remove port.id, true⟩] none) =
      some [{ camera with inst := [], policy := .manual }] := by decide
  rw [hread] at hload
  cases hload
  have hcamera := congrFun hlookup camera.id
  revert hcamera
  decide

end WslPlus.Store.Devices
