import WslPlus.Lib.Transition
import WslPlus.Lib.Yaml

/-!
# The network store

networks.yaml holds the networks and, under another key, the networks each instance is
attached to. Each call reads the file and writes it anew. `Save` and `Remove` write only the
networks, and `Remove` only the name and the type of each.
-/

namespace WslPlus.Store

open Function List Yaml

namespace Networks

structure NetworkPortMapping where
  hostIp : Text
  hostPort : UInt32
  guestPort : UInt32
deriving DecidableEq

structure NetworkConfig where
  name : Text
  type : Text
  cidr : Text
  dns : Text
  vlan : Option Int32
  ports : List NetworkPortMapping
deriving DecidableEq

variable (numbers : Numbers)

def parsePort (port : Yaml.Node) : Option NetworkPortMapping := do
  let hostIp ← port.subscript "host-ip".toList
  let hostPort ← port.subscript "host-port".toList
  let guestPort ← port.subscript "guest-port".toList
  some { hostIp := asStringOr [] hostIp, hostPort := numbers.asUIntOr 0 hostPort,
         guestPort := numbers.asUIntOr 0 guestPort }

def parseNetwork (node : Yaml.Node) : Option NetworkConfig := do
  let name ← node.subscript "name".toList
  let type ← node.subscript "type".toList
  let cidr ← node.subscript "cidr".toList
  let dns ← node.subscript "dns".toList
  let vlan ← match ← node.subscript "vlan".toList with
    | some vlan => (numbers.asInt vlan).map some
    | none => some none
  let ports ← match ← node.subscript "ports".toList with
    | some ports => ports.items.bind (·.mapM (parsePort numbers))
    | none => some []
  some { name := asStringOr [] name, type := asStringOr "nat".toList type, cidr := asStringOr [] cidr,
         dns := asStringOr [] dns, vlan, ports }

def parseDocument (root : Yaml.Node) : Option (List NetworkConfig) := do
  match ← root.subscript "networks".toList with
  | none => some []
  | some networks => networks.items.bind (·.mapM (parseNetwork numbers))

def load : File → Option (List NetworkConfig)
  | none => some []
  | some root => parseDocument numbers root

def validate (config : NetworkConfig) : Bool :=
  config.name ≠ [] &&
    (config.type = "nat".toList || config.type = "bridge".toList || config.type = "host-only".toList) &&
    config.ports.all fun p => !(p.guestPort = 0 || 65535 < p.guestPort || 65535 < p.hostPort)

def portNode (p : NetworkPortMapping) : Yaml.Node :=
  .map (entryUnless (p.hostIp = []) "host-ip".toList (.scalar p.hostIp) ++
    [("host-port".toList, Yaml.Node.scalar (numbers.ofUInt p.hostPort)),
      ("guest-port".toList, Yaml.Node.scalar (numbers.ofUInt p.guestPort))])

def vlanEntry : Option Int32 → List (Text × Yaml.Node)
  | none => []
  | some vlan => [("vlan".toList, .scalar (numbers.ofInt vlan))]

def networkNode (cfg : NetworkConfig) : Yaml.Node :=
  .map (("name".toList, Yaml.Node.scalar cfg.name) :: ("type".toList, Yaml.Node.scalar cfg.type) ::
    (entryUnless (cfg.cidr = []) "cidr".toList (.scalar cfg.cidr) ++
      entryUnless (cfg.dns = []) "dns".toList (.scalar cfg.dns) ++ vlanEntry numbers cfg.vlan ++
      entryUnless (cfg.ports = []) "ports".toList (.sequence (cfg.ports.map (portNode numbers)))))

def save (config : NetworkConfig) (file : File) : Effect :=
  if validate config = false then .throws
  else
    match load numbers file with
    | none => .throws
    | some all =>
      .writes (some (.map [("networks".toList,
        .sequence ((Keyed.put NetworkConfig.name config all).map (networkNode numbers)))]))

/-- What `Remove` writes of a network that it keeps. -/
def keptNode (cfg : NetworkConfig) : Yaml.Node :=
  .map [("name".toList, .scalar cfg.name), ("type".toList, .scalar cfg.type)]

def remove (name : Text) (file : File) : Effect :=
  match load numbers file with
  | none => .throws
  | some all =>
    let kept := Keyed.erase NetworkConfig.name name all
    if kept.length = all.length then .throws
    else if kept = [] then .writes none
    else .writes (some (.map [("networks".toList, .sequence (kept.map keptNode))]))

def readAttachmentsNode : File → Option Yaml.Node
  | none => some (.map [])
  | some root => (root.subscript "attachments".toList).map (·.getD (.map []))

def saveAttachmentsNode (attachments : Yaml.Node) : File → Effect
  | none => .writes (some (.map [("attachments".toList, attachments)]))
  | some root =>
    match root.toMap with
    | none => .throws
    | some entries => .writes (some (.map (Keyed.assign "attachments".toList attachments entries)))

def attachments (inst : Text) (file : File) : Option (List Text) := do
  match ← (← readAttachmentsNode file).subscript inst with
  | none => some []
  | some list => list.items.bind (·.mapM Yaml.Node.asString)

/-- The loop of `Attach`, which ends at the network it looks for. -/
def holdsNetwork (network : Text) : List Yaml.Node → Option Bool
  | [] => some false
  | item :: items => do if (← item.asString) = network then some true else holdsNetwork network items

def attach (inst network : Text) (file : File) : Effect :=
  match (readAttachmentsNode file).bind Yaml.Node.toMap with
  | none => .throws
  | some entries =>
    let list := (Keyed.value inst entries).getD (.sequence [])
    match list.items.bind (holdsNetwork network) with
    | none => .throws
    | some true => .returns
    | some false =>
      match list.pushBack (.scalar network) with
      | none => .throws
      | some list => saveAttachmentsNode (.map (Keyed.assign inst list entries)) file

def keepOthers (network : Text) : List Yaml.Node → Option (List Yaml.Node)
  | [] => some []
  | item :: items => do
    let text ← item.asString
    let kept ← keepOthers network items
    some (if text ≠ network then item :: kept else kept)

def detach (inst network : Text) (file : File) : Effect :=
  match (readAttachmentsNode file).bind Yaml.Node.toMap with
  | none => .throws
  | some entries =>
    match Keyed.value inst entries with
    | none => .returns
    | some list =>
      match list.items.bind (keepOthers network) with
      | none => .throws
      | some kept => saveAttachmentsNode (.map (Keyed.assign inst (.sequence kept) entries)) file

inductive Call where
  | save (config : NetworkConfig)
  | remove (name : Text)
  | attach (inst network : Text)
  | detach (inst network : Text)

/-- A call, and whether the file can be opened or removed when it comes to that. -/
structure Request where
  call : Call
  opens : Bool

def Call.effect (call : Call) (file : File) : Effect :=
  match call with
  | .save config => Networks.save numbers config file
  | .remove name => Networks.remove numbers name file
  | .attach inst network => Networks.attach inst network file
  | .detach inst network => Networks.detach inst network file

def step (r : Request) (file : File) : File := ((r.call.effect numbers file).perform r.opens file).2

/-- The networks by name, and the networks of each instance. -/
structure NetworkMap where
  networks : Text → Option NetworkConfig
  attached : Text → List Text

def NetworkMap.perform (call : Call) (a : NetworkMap) : NetworkMap :=
  match call with
  | .save config =>
    if validate config then { a with networks := update a.networks config.name (some config) } else a
  | .remove name => { a with networks := update a.networks name none }
  | .attach inst network =>
    if network ∈ a.attached inst then a
    else { a with attached := update a.attached inst (a.attached inst ++ [network]) }
  | .detach inst network =>
    { a with attached := update a.attached inst ((a.attached inst).filter (· ≠ network)) }

def NetworkMap.step (r : Request) (a : NetworkMap) : NetworkMap := if r.opens then a.perform r.call else a

/-- `Load` and `Attachments` return what the store holds. -/
structure Holds (file : File) (a : NetworkMap) : Prop where
  load : ∃ all, load numbers file = some all ∧ Keyed.Distinct NetworkConfig.name all ∧
    ∀ name, Keyed.lookup NetworkConfig.name all name = a.networks name
  attachments : ∀ inst, attachments inst file = some (a.attached inst)

/-- A network of which `Remove` writes everything. -/
def Plain (cfg : NetworkConfig) : Prop := cfg.cidr = [] ∧ cfg.dns = [] ∧ cfg.vlan = none ∧ cfg.ports = []

/-- Nothing is attached when `Save` or `Remove` writes the file, and what `Remove` keeps is plain. -/
def Keeps (r : Request) (file : File) : Prop :=
  match r.call with
  | .save config => r.opens = true → validate config = true → ∀ inst, attachments inst file = some []
  | .remove name => r.opens = true → ∀ all, load numbers file = some all →
      (∃ cfg ∈ all, cfg.name = name) →
        (∀ cfg ∈ all, cfg.name ≠ name → Plain cfg) ∧ ∀ inst, attachments inst file = some []
  | .attach _ _ => True
  | .detach _ _ => True

theorem parsePort_portNode (p : NetworkPortMapping) : parsePort numbers (portNode numbers p) = some p := by
  obtain ⟨hostIp, hostPort, guestPort⟩ := p
  by_cases hip : hostIp = []
  · simp [parsePort, portNode, entryUnless, Yaml.Node.subscript, Keyed.value, Numbers.asUIntOr, numbers.toUInt_ofUInt, hip]
  · simp [parsePort, portNode, entryUnless, Yaml.Node.subscript, Keyed.value, Numbers.asUIntOr, numbers.toUInt_ofUInt, hip]

theorem parseNetwork_networkNode (cfg : NetworkConfig) :
    parseNetwork numbers (networkNode numbers cfg) = some cfg := by
  obtain ⟨name, type, cidr, dns, vlan, ports⟩ := cfg
  have hports := mapM_parse (parsePort_portNode numbers) ports
  by_cases hp : ports = [] <;> cases vlan <;>
    simp [parseNetwork, networkNode, vlanEntry, Yaml.Node.subscript, Keyed.value_append, Keyed.value, value_entryUnless,
      asStringOr_unless, hp, Yaml.Node.items, hports, Numbers.asInt, numbers.toInt_ofInt]

/-- What a file holds. The attachments are there once one has been made. -/
structure Content where
  networks : List NetworkConfig
  distinct : Keyed.Distinct NetworkConfig.name networks
  attachments : Option (List (Text × List Text))

def listNode (l : List Text) : Yaml.Node := .sequence (l.map .scalar)

def attachmentEntries (att : List (Text × List Text)) : List (Text × Yaml.Node) := att.map fun e =>
    (e.1, listNode e.2)

def Content.entries (c : Content) : List (Text × Yaml.Node) :=
  entryUnless (c.networks = []) "networks".toList (.sequence (c.networks.map (networkNode numbers))) ++
    match c.attachments with
    | none => []
    | some att => [("attachments".toList, .map (attachmentEntries att))]

def fileOf : List (Text × Yaml.Node) → File
  | [] => none
  | entry :: entries => some (.map (entry :: entries))

def Content.file (c : Content) : File := fileOf (c.entries numbers)

def Content.attached (c : Content) (inst : Text) : List Text :=
  (Keyed.value inst (c.attachments.getD [])).getD []

def Content.toMap (c : Content) : NetworkMap := ⟨Keyed.lookup NetworkConfig.name c.networks, c.attached⟩

def Content.attach (c : Content) (inst : Text) (l : List Text) : Content :=
  { c with attachments := some (Keyed.assign inst l (c.attachments.getD [])) }

/-- A network as `Remove` keeps it. -/
def strip (cfg : NetworkConfig) : NetworkConfig := ⟨cfg.name, cfg.type, [], [], none, []⟩

section

variable (c : Content)
include c

theorem value_networks : Keyed.value "networks".toList (c.entries numbers) =
    if c.networks = [] then none else some (.sequence (c.networks.map (networkNode numbers))) := by
  rw [Content.entries, Keyed.value_append, value_entryUnless]
  cases c.attachments with
  | none => simp [Keyed.value]
  | some att => simp [Keyed.value]

theorem value_attachments : Keyed.value "attachments".toList (c.entries numbers) =
    c.attachments.map fun att => .map (attachmentEntries att) := by
  rw [Content.entries, Keyed.value_append, value_entryUnless]
  cases c.attachments with
  | none => simp [Keyed.value]
  | some att => simp [Keyed.value]

theorem assign_attachments (att : List (Text × List Text)) :
    fileOf ({ c with attachments := some att }.entries numbers) =
      some (.map (Keyed.assign "attachments".toList (.map (attachmentEntries att)) (c.entries numbers))) := by
  unfold Content.entries entryUnless
  by_cases hn : c.networks = [] <;> cases c.attachments <;> simp [hn, Keyed.assign, fileOf]

theorem load_file : load numbers (c.file numbers) = some c.networks := by
  have hload : ∀ entries, load numbers (fileOf entries) = parseDocument numbers (.map entries) := by
    intro entries
    cases entries with
    | nil => rfl
    | cons entry entries => rfl
  rw [Content.file, hload, parseDocument, Yaml.Node.subscript, value_networks]
  by_cases hn : c.networks = []
  · simp [hn]
  · simpa [hn, Yaml.Node.items] using mapM_parse (parseNetwork_networkNode numbers) c.networks

theorem readAttachmentsNode_file :
    readAttachmentsNode (c.file numbers) = some (.map (attachmentEntries (c.attachments.getD []))) := by
  have hread : ∀ entries, readAttachmentsNode (fileOf entries) =
      some ((Keyed.value "attachments".toList entries).getD (.map [])) := by
    intro entries
    cases entries with
    | nil => rfl
    | cons entry entries => rfl
  rw [Content.file, hread, value_attachments]
  cases c.attachments with
  | none => rfl
  | some att => rfl

theorem saveAttachmentsNode_file (att : List (Text × List Text)) :
    saveAttachmentsNode (.map (attachmentEntries att)) (c.file numbers) =
      .writes ({ c with attachments := some att }.file numbers) := by
  have hsave : ∀ entries a, saveAttachmentsNode a (fileOf entries) =
      .writes (some (.map (Keyed.assign "attachments".toList a entries))) := by
    intro entries a
    cases entries with
    | nil => rfl
    | cons entry entries => rfl
  rw [Content.file, hsave, Content.file, assign_attachments]

end

theorem value_attachmentEntries (inst : Text) (att : List (Text × List Text)) :
    Keyed.value inst (attachmentEntries att) =
    (Keyed.value inst att).map listNode := Keyed.value_map listNode inst att

theorem mapM_asString (l : List Text) : (l.map Yaml.Node.scalar).mapM Yaml.Node.asString = some l := by
  have hscalar : ∀ text, (Yaml.Node.scalar text).asString = some text := fun _ => rfl
  exact mapM_parse hscalar l

theorem attachments_file (c : Content) (inst : Text) :
    attachments inst (c.file numbers) = some (c.attached inst) := by
  simp only [attachments, readAttachmentsNode_file, Option.bind_eq_bind, Option.bind_some, Yaml.Node.subscript,
    value_attachmentEntries, Content.attached]
  cases Keyed.value inst (c.attachments.getD []) with
  | none => rfl
  | some l => exact mapM_asString l

theorem holdsNetwork_scalars (network : Text) (l : List Text) :
    holdsNetwork network (l.map .scalar) = some (decide (network ∈ l)) := by
  induction l with
  | nil => rfl
  | cons text l ih =>
    simp only [map_cons, holdsNetwork, Yaml.Node.asString, Option.bind_eq_bind, Option.bind_some, ih]
    by_cases h : text = network
    · simp [h]
    · simp [h, Ne.symm h]

theorem keepOthers_scalars (network : Text) (l : List Text) :
    keepOthers network (l.map .scalar) = some ((l.filter (· ≠ network)).map .scalar) := by
  induction l with
  | nil => rfl
  | cons text l ih =>
    simp only [map_cons, keepOthers, Yaml.Node.asString, Option.bind_eq_bind, Option.bind_some, ih]
    by_cases h : text = network
    · simp [h]
    · simp [h]

def Content.after (r : Request) (c : Content) : Content :=
  if r.opens = false then c
  else
    match r.call with
    | .save config =>
      if validate config then ⟨Keyed.put NetworkConfig.name config c.networks, Keyed.distinct_put c.distinct, none⟩
      else c
    | .remove name =>
      if Keyed.lookup NetworkConfig.name c.networks name = none then c
      else ⟨(Keyed.erase NetworkConfig.name name c.networks).map strip,
        Keyed.distinct_map (fun _ => rfl) (Keyed.distinct_erase c.distinct), none⟩
    | .attach inst network =>
      if network ∈ c.attached inst then c else c.attach inst (c.attached inst ++ [network])
    | .detach inst network =>
      match Keyed.value inst (c.attachments.getD []) with
      | none => c
      | some l => c.attach inst (l.filter (· ≠ network))

theorem file_of_networks {networks : List NetworkConfig} (hne : networks ≠ [])
    (hdist : Keyed.Distinct NetworkConfig.name networks) :
    Content.file numbers ⟨networks, hdist, none⟩ =
      some (.map [("networks".toList, .sequence (networks.map (networkNode numbers)))]) := by
  simp [Content.file, Content.entries, entryUnless, hne, fileOf]

theorem step_save (config : NetworkConfig) (opens : Bool) (c : Content) :
    step numbers ⟨.save config, opens⟩ (c.file numbers) = (c.after ⟨.save config, opens⟩).file numbers := by
  cases opens <;> cases hvalid : validate config <;>
    simp [step, Call.effect, save, hvalid, load_file, Effect.perform, Content.after, file_of_networks, Keyed.put_ne_nil]

theorem step_remove (name : Text) (opens : Bool) (c : Content) :
    step numbers ⟨.remove name, opens⟩ (c.file numbers) = (c.after ⟨.remove name, opens⟩).file numbers := by
  have hkept : ∀ l : List NetworkConfig, l.map keptNode = (l.map strip).map (networkNode numbers) := by
    intro l
    rw [map_map]
    exact map_congr_left fun cfg _ => rfl
  simp only [step, Call.effect, remove, load_file, Keyed.length_erase_iff, Content.after]
  by_cases hnone : Keyed.lookup NetworkConfig.name c.networks name = none
  · simp only [if_pos hnone, ite_self]
    rfl
  · simp only [if_neg hnone]
    cases opens with
    | false =>
      split <;> rfl
    | true =>
      by_cases hnil : Keyed.erase NetworkConfig.name name c.networks = []
      · rw [if_pos hnil]
        simp only [hnil]
        rfl
      · rw [if_neg hnil, hkept]
        exact (file_of_networks numbers (by simpa using hnil) _).symm

theorem step_attach (inst network : Text) (opens : Bool) (c : Content) :
    step numbers ⟨.attach inst network, opens⟩ (c.file numbers) =
      (c.after ⟨.attach inst network, opens⟩).file numbers := by
  have hlist : (Keyed.value inst (attachmentEntries (c.attachments.getD []))).getD (.sequence []) =
      listNode (c.attached inst) := by
    rw [value_attachmentEntries, Content.attached]
    cases Keyed.value inst (c.attachments.getD []) with
    | none => rfl
    | some l => rfl
  have hassign : Keyed.assign inst (listNode (c.attached inst ++ [network]))
      (attachmentEntries (c.attachments.getD [])) =
        attachmentEntries (Keyed.assign inst (c.attached inst ++ [network]) (c.attachments.getD [])) :=
    Keyed.assign_map listNode inst _ _
  have hpush : (listNode (c.attached inst)).pushBack (.scalar network) =
      some (listNode (c.attached inst ++ [network])) := by
    simp only [listNode, Yaml.Node.pushBack, map_append, map_cons, map_nil]
  have hitems : (listNode (c.attached inst)).items = some ((c.attached inst).map .scalar) := rfl
  simp only [step, Call.effect, attach, readAttachmentsNode_file, Option.bind_some, Yaml.Node.toMap, hlist, hitems,
    holdsNetwork_scalars, hpush, hassign, Content.after]
  by_cases hmem : network ∈ c.attached inst
  · cases opens <;> simp [hmem, Effect.perform]
  · cases opens <;> simp [hmem, Effect.perform, saveAttachmentsNode_file, Content.attach]

theorem step_detach (inst network : Text) (opens : Bool) (c : Content) :
    step numbers ⟨.detach inst network, opens⟩ (c.file numbers) =
      (c.after ⟨.detach inst network, opens⟩).file numbers := by
  simp only [step, Call.effect, detach, readAttachmentsNode_file, Option.bind_some, Yaml.Node.toMap,
    value_attachmentEntries, Content.after]
  cases Keyed.value inst (c.attachments.getD []) with
  | none => cases opens <;> simp [Effect.perform]
  | some l =>
    have hitems : (listNode l).items = some (l.map .scalar) := rfl
    have hassign : Keyed.assign inst (.sequence ((l.filter (· ≠ network)).map .scalar))
        (attachmentEntries (c.attachments.getD [])) =
          attachmentEntries (Keyed.assign inst (l.filter (· ≠ network)) (c.attachments.getD [])) :=
      Keyed.assign_map listNode inst _ _
    simp only [Option.map_some, hitems, Option.bind_some, keepOthers_scalars, hassign]
    cases opens <;> simp [Effect.perform, saveAttachmentsNode_file, Content.attach]

theorem step_file (r : Request) (c : Content) : step numbers r (c.file numbers) = (c.after r).file numbers := by
  obtain ⟨call, opens⟩ := r
  cases call with
  | save config => exact step_save numbers config opens c
  | remove name => exact step_remove numbers name opens c
  | attach inst network => exact step_attach numbers inst network opens c
  | detach inst network => exact step_detach numbers inst network opens c

theorem holds_file_iff (c : Content) (a : NetworkMap) : Holds numbers (c.file numbers) a ↔ a = c.toMap := by
  constructor
  · rintro ⟨⟨all, hload, -, hlookup⟩, hattached⟩
    rw [load_file] at hload
    cases hload
    have hnetworks : a.networks = Keyed.lookup NetworkConfig.name c.networks := funext fun name => (hlookup name).symm
    have hlists : a.attached = c.attached := by
      funext inst
      have h := hattached inst
      rw [attachments_file] at h
      exact (Option.some.inj h).symm
    cases a
    simp only at hnetworks hlists
    rw [hnetworks, hlists]
    rfl
  · rintro rfl
    exact ⟨⟨c.networks, load_file numbers c, c.distinct, fun _ => rfl⟩, attachments_file numbers c⟩

theorem attached_attach (c : Content) (inst : Text) (l : List Text) :
    (c.attach inst l).attached = update c.attached inst l := by
  funext inst'
  rw [Content.attached, Content.attach, Option.getD_some, Keyed.value_assign]
  by_cases h : inst' = inst
  · subst h
    simp
  · simp [h, Content.attached]

theorem strip_eq_iff (cfg : NetworkConfig) : strip cfg = cfg ↔ Plain cfg := by
  obtain ⟨name, type, cidr, dns, vlan, ports⟩ := cfg
  simp only [strip, Plain, NetworkConfig.mk.injEq, true_and]
  constructor
  · rintro ⟨h₁, h₂, h₃, h₄⟩
    exact ⟨h₁.symm, h₂.symm, h₃.symm, h₄.symm⟩
  · rintro ⟨h₁, h₂, h₃, h₄⟩
    exact ⟨h₁.symm, h₂.symm, h₃.symm, h₄.symm⟩

theorem toMap_save_iff (config : NetworkConfig) (c : Content) :
    (c.after ⟨.save config, true⟩).toMap = c.toMap.step ⟨.save config, true⟩ ↔
      (validate config = true → c.attached = fun _ => []) := by
  cases hvalid : validate config with
  | false => simp [Content.after, NetworkMap.step, NetworkMap.perform, hvalid]
  | true =>
    have hnone : Content.attached ⟨Keyed.put NetworkConfig.name config c.networks, Keyed.distinct_put c.distinct, none⟩ =
        fun _ => [] := rfl
    simp only [Content.after, NetworkMap.step, NetworkMap.perform, hvalid, Content.toMap, Keyed.lookup_put_eq_update, hnone,
      if_true, Bool.true_eq_false, if_false, NetworkMap.mk.injEq, true_and, true_imp_iff]
    exact eq_comm

theorem toMap_remove_iff (name : Text) (c : Content) :
    (c.after ⟨.remove name, true⟩).toMap = c.toMap.step ⟨.remove name, true⟩ ↔
      ((∃ cfg ∈ c.networks, cfg.name = name) →
        (∀ cfg ∈ c.networks, cfg.name ≠ name → Plain cfg) ∧ c.attached = fun _ => []) := by
  by_cases hnone : Keyed.lookup NetworkConfig.name c.networks name = none
  · have hsame : update (Keyed.lookup NetworkConfig.name c.networks) name none =
        Keyed.lookup NetworkConfig.name c.networks := update_eq_self_iff.mpr hnone.symm
    have habsent : ¬ ∃ cfg ∈ c.networks, cfg.name = name := fun h => Keyed.exists_key_iff.mp h hnone
    simp [Content.after, NetworkMap.step, NetworkMap.perform, hnone, hsame, habsent, Content.toMap]
  · have hpresent : ∃ cfg ∈ c.networks, cfg.name = name := Keyed.exists_key_iff.mpr hnone
    have hname : ∀ cfg, (strip cfg).name = cfg.name := fun _ => rfl
    simp only [Content.after, NetworkMap.step, NetworkMap.perform, if_neg hnone, Content.toMap, if_true,
      Bool.true_eq_false, if_false, NetworkMap.mk.injEq, hpresent, true_imp_iff,
      Keyed.lookup_kept_iff hname c.distinct, strip_eq_iff]
    exact and_congr_right fun _ => eq_comm

theorem toMap_attach (inst network : Text) (c : Content) :
    (c.after ⟨.attach inst network, true⟩).toMap = c.toMap.step ⟨.attach inst network, true⟩ := by
  simp only [Content.after, NetworkMap.step, NetworkMap.perform, Bool.true_eq_false, if_true, if_false]
  by_cases hmem : network ∈ c.attached inst
  · have hmem' : network ∈ c.toMap.attached inst := hmem
    rw [if_pos hmem, if_pos hmem']
  · have hmem' : network ∉ c.toMap.attached inst := hmem
    rw [if_neg hmem, if_neg hmem', Content.toMap, attached_attach]
    rfl

theorem toMap_detach (inst network : Text) (c : Content) :
    (c.after ⟨.detach inst network, true⟩).toMap = c.toMap.step ⟨.detach inst network, true⟩ := by
  simp only [Content.after, NetworkMap.step, NetworkMap.perform, Bool.true_eq_false, if_true, if_false]
  cases hvalue : Keyed.value inst (c.attachments.getD []) with
  | none =>
    have hempty : c.attached inst = [] := by rw [Content.attached, hvalue, Option.getD_none]
    have hsame : update c.attached inst ((c.attached inst).filter (· ≠ network)) = c.attached := by
      rw [update_eq_self_iff, hempty]
      rfl
    simp only [Content.toMap, hsame]
  | some l =>
    have hlist : c.attached inst = l := by rw [Content.attached, hvalue, Option.getD_some]
    simp only [Content.toMap, attached_attach, hlist]
    rfl

theorem toMap_after_iff (r : Request) (c : Content) :
    (c.after r).toMap = c.toMap.step r ↔ Keeps numbers r (c.file numbers) := by
  have hdetached : c.attached = (fun _ => []) ↔ ∀ inst, attachments inst (c.file numbers) = some [] := by
    simp [attachments_file, funext_iff]
  obtain ⟨call, opens⟩ := r
  cases opens with
  | false => cases call <;> simp [Content.after, NetworkMap.step, Keeps]
  | true =>
    cases call with
    | save config =>
      rw [toMap_save_iff, hdetached]
      simp [Keeps]
    | remove name =>
      rw [toMap_remove_iff, hdetached]
      simp [Keeps, load_file]
    | attach inst network => simp [toMap_attach, Keeps]
    | detach inst network => simp [toMap_detach, Keeps]

/-- A call that throws changes nothing. Each file of a run holds what the map holds that the same calls
have made, exactly if each call keeps what it does not own. -/
theorem holds_along_iff (numbers : Numbers) :
    (∀ (r : Request) (file : File), ((r.call.effect numbers file).perform r.opens file).1 = false →
      step numbers r file = file) ∧
    ∀ (c : Content) (requests : List Request),
      (∀ n, Holds numbers (runSteps (step numbers) (requests.take n) (c.file numbers))
        (runSteps NetworkMap.step (requests.take n) c.toMap)) ↔
      Allowed (step numbers) (Keeps numbers) requests (c.file numbers) := by
  refine ⟨fun r file h => Effect.perform_throws r.opens file _ h, fun c requests => ?_⟩
  have hinv : ∀ (r : Request) (file : File), (∃ c : Content, file = c.file numbers) →
      ∃ c : Content, step numbers r file = c.file numbers := by
    rintro r file ⟨c, rfl⟩
    exact ⟨c.after r, step_file numbers r c⟩
  refine refines_iff_allowed hinv ?_ ⟨c, rfl⟩ ((holds_file_iff numbers c _).mpr rfl)
  rintro r file a ⟨c, rfl⟩ ha
  rw [holds_file_iff] at ha
  rw [ha, step_file, holds_file_iff, eq_comm, toMap_after_iff]

def web : NetworkConfig := ⟨"web".toList, "nat".toList, "10.0.0.0/24".toList, [], none, []⟩

def lab : NetworkConfig := ⟨"lab".toList, "bridge".toList, [], [], none, []⟩

/-- A second network is saved and the attachment to the first one is gone; a network is removed
and the other one has no address range any more. -/
theorem save_forgets_attachments :
    (∃ requests, ¬ Holds decimal (runSteps (step decimal) requests none)
      (runSteps NetworkMap.step requests ⟨fun _ => none, fun _ => []⟩)) ∧
    attachments "Ubuntu".toList (runSteps (step decimal)
      [⟨.save lab, true⟩, ⟨.attach "Ubuntu".toList lab.name, true⟩] none) = some [lab.name] ∧
    attachments "Ubuntu".toList (runSteps (step decimal)
      [⟨.save lab, true⟩, ⟨.attach "Ubuntu".toList lab.name, true⟩, ⟨.save web, true⟩] none) = some [] ∧
    load decimal (runSteps (step decimal) [⟨.save web, true⟩, ⟨.save lab, true⟩, ⟨.remove lab.name, true⟩] none) =
      some [{ web with cidr := [] }] := by
  refine ⟨⟨[⟨.save lab, true⟩, ⟨.attach "Ubuntu".toList lab.name, true⟩, ⟨.save web, true⟩], fun h => ?_⟩,
    by decide, by decide, by decide⟩
  have hattached := h.attachments "Ubuntu".toList
  revert hattached
  decide

end Networks

end WslPlus.Store
