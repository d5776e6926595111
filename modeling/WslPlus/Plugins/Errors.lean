import WslPlus.Lib.Transition

/-!
# Errors of plugins

A hook reports an error by a message for the user, which `PluginError` keeps for the thread.
The message is taken when a notification that may fail looks at the result of the hook; the
other notifications leave it where it is.
-/

namespace WslPlus.Plugins

abbrev HResult := Int32

def failed (result : HResult) : Bool := result < 0

abbrev Message := List Char

inductive PluginErrorResult where
  | ok
  | invalidArg
  | illegalMethodCall
  | illegalStateChange

/-- `PluginError` of a message, which may be null, with `g_pluginErrorMessage` before and after. -/
def pluginError (inPlugin : Bool) (userMessage pluginErrorMessage : Option Message) :
    PluginErrorResult × Option Message :=
  match userMessage with
  | none => (.invalidArg, pluginErrorMessage)
  | some message =>
    if inPlugin = false then (.illegalMethodCall, pluginErrorMessage)
    else if pluginErrorMessage.isSome then (.illegalStateChange, pluginErrorMessage)
    else (.ok, some message)

/-- What a hook does: it calls `PluginError` and goes on as the answer tells it, or it returns. -/
inductive Hook where
  | returns (result : HResult)
  | reports (message : Option Message) (next : PluginErrorResult → Hook)

/-- A hook that has run: its plugin, its calls of `PluginError` with the answers, and its result. -/
structure Invocation where
  plugin : Message
  calls : List (Option Message × PluginErrorResult)
  result : HResult

def Hook.calls : Hook → Option Message → List (Option Message × PluginErrorResult)
  | .returns _, _ => []
  | .reports message next, slot =>
    (message, (pluginError true message slot).1) ::
      (next (pluginError true message slot).1).calls (pluginError true message slot).2

def Hook.result : Hook → Option Message → HResult
  | .returns result, _ => result
  | .reports message next, slot =>
    (next (pluginError true message slot).1).result (pluginError true message slot).2

def Hook.slot : Hook → Option Message → Option Message
  | .returns _, slot => slot
  | .reports message next, slot =>
    (next (pluginError true message slot).1).slot (pluginError true message slot).2

def Hook.invocation (hook : Hook) (plugin : Message) (slot : Option Message) : Invocation :=
  ⟨plugin, hook.calls slot, hook.result slot⟩

/-- What a notification throws. -/
inductive Failure where
  | fatalPluginError (result : HResult) (plugin : Message) (message : Option Message)
  | illegalStateChange (plugin : Message)

/-- `ThrowIfPluginError`, which leaves no message. -/
def throwIfPluginError (result : HResult) (plugin : Message) (message : Option Message) : Option Failure :=
  if failed result then some (.fatalPluginError result plugin message)
  else if message.isSome then some (.illegalStateChange plugin)
  else none

/-- The hooks that have run in a notification, what it throws, and the message that is left. -/
structure Notified where
  invocations : List Invocation
  failure : Option Failure
  slot : Option Message

def notifyFatal : List (Message × Hook) → Option Message → Notified
  | [], slot => ⟨[], none, slot⟩
  | (plugin, hook) :: hooks, slot =>
    match throwIfPluginError (hook.result slot) plugin (hook.slot slot) with
    | some failure => ⟨[hook.invocation plugin slot], some failure, none⟩
    | none =>
      let rest := notifyFatal hooks none
      ⟨hook.invocation plugin slot :: rest.invocations, rest.failure, rest.slot⟩

def notifyLogged : List (Message × Hook) → Option Message → Notified
  | [], slot => ⟨[], none, slot⟩
  | (plugin, hook) :: hooks, slot =>
    let rest := notifyLogged hooks (hook.slot slot)
    ⟨hook.invocation plugin slot :: rest.invocations, none, rest.slot⟩

inductive Notification where
  | vmStarted | vmStopping
  | distributionStarted | distributionStopping | distributionRegistered | distributionUnregistered
  | wslcSessionCreated | wslcSessionStopping
  | wslcContainerStarted | wslcContainerStopping
  | wslcImageCreated | wslcImageDeleted
  | wslcVmStarted | wslcVmStopping
deriving DecidableEq

/-- A plugin has a hook for some of the notifications. -/
structure Plugin where
  name : Message
  hooked : Notification → Bool

/-- A notification, with what the hook of each plugin does this time. -/
structure Event where
  notification : Notification
  behaviour : Nat → Hook

def hooksOf (plugins : List Plugin) (n : Notification) (behaviour : Nat → Hook) : List (Message × Hook) :=
  plugins.zipIdx.filterMap fun e => if e.1.hooked n then some (e.1.name, behaviour e.2) else none

section

variable (plugins : List Plugin) (behaviour : Nat → Hook)

def onVmStarted := notifyFatal (hooksOf plugins .vmStarted behaviour)

def onVmStopping := notifyLogged (hooksOf plugins .vmStopping behaviour)

def onDistributionStarted := notifyFatal (hooksOf plugins .distributionStarted behaviour)

def onDistributionStopping := notifyLogged (hooksOf plugins .distributionStopping behaviour)

def onDistributionRegistered := notifyLogged (hooksOf plugins .distributionRegistered behaviour)

def onDistributionUnregistered := notifyLogged (hooksOf plugins .distributionUnregistered behaviour)

def onWslcSessionCreated := notifyFatal (hooksOf plugins .wslcSessionCreated behaviour)

def onWslcSessionStopping := notifyLogged (hooksOf plugins .wslcSessionStopping behaviour)

def onWslcContainerStarted := notifyFatal (hooksOf plugins .wslcContainerStarted behaviour)

def onWslcContainerStopping := notifyLogged (hooksOf plugins .wslcContainerStopping behaviour)

def onWslcImageCreated := notifyLogged (hooksOf plugins .wslcImageCreated behaviour)

def onWslcImageDeleted := notifyLogged (hooksOf plugins .wslcImageDeleted behaviour)

def onWslcVmStarted := notifyLogged (hooksOf plugins .wslcVmStarted behaviour)

def onWslcVmStopping := notifyLogged (hooksOf plugins .wslcVmStopping behaviour)

end

def notify (plugins : List Plugin) (e : Event) : Option Message → Notified :=
  match e.notification with
  | .vmStarted => onVmStarted plugins e.behaviour
  | .vmStopping => onVmStopping plugins e.behaviour
  | .distributionStarted => onDistributionStarted plugins e.behaviour
  | .distributionStopping => onDistributionStopping plugins e.behaviour
  | .distributionRegistered => onDistributionRegistered plugins e.behaviour
  | .distributionUnregistered => onDistributionUnregistered plugins e.behaviour
  | .wslcSessionCreated => onWslcSessionCreated plugins e.behaviour
  | .wslcSessionStopping => onWslcSessionStopping plugins e.behaviour
  | .wslcContainerStarted => onWslcContainerStarted plugins e.behaviour
  | .wslcContainerStopping => onWslcContainerStopping plugins e.behaviour
  | .wslcImageCreated => onWslcImageCreated plugins e.behaviour
  | .wslcImageDeleted => onWslcImageDeleted plugins e.behaviour
  | .wslcVmStarted => onWslcVmStarted plugins e.behaviour
  | .wslcVmStopping => onWslcVmStopping plugins e.behaviour

def step (plugins : List Plugin) (e : Event) (slot : Option Message) : Option Message :=
  (notify plugins e slot).slot

def Notification.fatal : Notification → Bool
  | .vmStarted | .distributionStarted | .wslcSessionCreated | .wslcContainerStarted => true
  | _ => false

def Invocation.message (i : Invocation) : Option Message := i.calls.findSome? Prod.fst

def charge : List Invocation → Option Failure
  | [] => none
  | i :: rest => (throwIfPluginError i.result i.plugin i.message).or (charge rest)

def FirstAccepted (i : Invocation) : Prop :=
  ∀ before call after, i.calls = before ++ call :: after →
    (call.2 = .ok ↔ call.1 ≠ none ∧ ∀ c ∈ before, c.1 = none)

def Charged (fatal : Bool) (n : Notified) : Prop :=
  (fatal = true → n.failure = charge n.invocations) ∧ ∀ i ∈ n.invocations, FirstAccepted i

def Hook.report : Hook → Option Message
  | .returns _ => none
  | .reports none next => (next .invalidArg).report
  | .reports (some message) _ => some message

def SingleReport : Option Message → List (Message × Hook) → Prop
  | _, [] => True
  | slot, (_, hook) :: hooks => (slot = none ∨ hook.report = none) ∧ SingleReport (slot.or hook.report) hooks

def NoneLeft (plugins : List Plugin) (e : Event) (slot : Option Message) : Prop :=
  if e.notification.fatal then slot = none ∨ hooksOf plugins e.notification e.behaviour = []
  else SingleReport slot (hooksOf plugins e.notification e.behaviour)

theorem Hook.slot_eq (hook : Hook) (slot : Option Message) : hook.slot slot = slot.or hook.report := by
  induction hook generalizing slot with
  | returns result => exact (Option.or_none).symm
  | reports message next ih =>
    cases message with
    | none => exact ih .invalidArg slot
    | some message =>
      cases slot with
      | none => exact ih .ok (some message)
      | some left => exact ih .illegalStateChange (some left)

theorem message_invocation (hook : Hook) (plugin : Message) (slot : Option Message) :
    (hook.invocation plugin slot).message = hook.report := by
  rw [Invocation.message, Hook.invocation]
  induction hook generalizing slot with
  | returns result => rfl
  | reports message next ih =>
    cases message with
    | none => exact ih .invalidArg slot
    | some message => rfl

theorem ok_iff (hook : Hook) (slot : Option Message) (before after : List (Option Message × PluginErrorResult))
    (call : Option Message × PluginErrorResult) (h : hook.calls slot = before ++ call :: after) :
    call.2 = .ok ↔ slot = none ∧ call.1 ≠ none ∧ ∀ c ∈ before, c.1 = none := by
  induction hook generalizing slot before with
  | returns result => cases before <;> cases h
  | reports message next ih =>
    cases before with
    | nil =>
      obtain ⟨rfl, -⟩ := List.cons.inj h
      cases message <;> cases slot <;> simp [pluginError]
    | cons first before =>
      obtain ⟨rfl, hrest⟩ := List.cons.inj h
      rw [ih _ _ _ hrest]
      cases message <;> cases slot <;> simp [pluginError]

theorem firstAccepted_iff (hook : Hook) (plugin : Message) (slot : Option Message) :
    FirstAccepted (hook.invocation plugin slot) ↔ slot = none ∨ hook.report = none := by
  have hreport := message_invocation hook plugin slot
  constructor
  · intro h
    cases slot with
    | none => exact Or.inl rfl
    | some left =>
      refine Or.inr (Option.eq_none_iff_forall_ne_some.mpr fun message hmsg => ?_)
      rw [hmsg, Invocation.message] at hreport
      obtain ⟨before, call, after, hcalls, hcall, hbefore⟩ := List.findSome?_eq_some_iff.mp hreport
      have hok := (h before call after hcalls).mpr ⟨by simp [hcall], hbefore⟩
      have hnone := ((ok_iff hook (some left) before after call hcalls).mp hok).1
      cases hnone
  · intro h before call after hcalls
    rw [ok_iff hook slot before after call hcalls]
    constructor
    · exact fun hboth => hboth.2
    · rintro ⟨hcall, hbefore⟩
      refine ⟨h.resolve_right fun hnone => ?_, hcall, hbefore⟩
      rw [hnone, Invocation.message, List.findSome?_eq_none_iff] at hreport
      refine hcall (hreport call ?_)
      rw [hcalls]
      simp

theorem notifyFatal_charged (hooks : List (Message × Hook)) : Charged true (notifyFatal hooks none) := by
  induction hooks with
  | nil => exact ⟨fun _ => rfl, fun i hi => by cases hi⟩
  | cons entry hooks ih =>
    obtain ⟨plugin, hook⟩ := entry
    have hfirst : FirstAccepted (hook.invocation plugin none) := (firstAccepted_iff hook plugin none).mpr (Or.inl rfl)
    have hslot : hook.slot none = (hook.invocation plugin none).message := by
      rw [message_invocation, Hook.slot_eq, Option.none_or]
    unfold notifyFatal
    rw [hslot]
    split
    · rename_i failure hthrow
      refine ⟨fun _ => ?_, fun i hi => ?_⟩
      · have hcharge : throwIfPluginError (hook.invocation plugin none).result plugin
            (hook.invocation plugin none).message = some failure := hthrow
        simp only [charge]
        exact (congrArg (fun f => Option.or f none) hcharge).symm
      · rw [List.mem_singleton.mp hi]
        exact hfirst
    · rename_i hthrow
      refine ⟨fun _ => ?_, fun i hi => ?_⟩
      · have hcharge : throwIfPluginError (hook.invocation plugin none).result plugin
            (hook.invocation plugin none).message = none := hthrow
        simp only [charge]
        exact (ih.1 rfl).trans (congrArg (fun f => Option.or f _) hcharge).symm
      · rcases List.mem_cons.mp hi with rfl | hi
        · exact hfirst
        · exact ih.2 i hi

theorem notifyFatal_not_charged (entry : Message × Hook) (hooks : List (Message × Hook)) (left : Message) :
    ¬ Charged true (notifyFatal (entry :: hooks) (some left)) := by
  obtain ⟨plugin, hook⟩ := entry
  have hslot : hook.slot (some left) = some left := by rw [Hook.slot_eq, Option.some_or]
  rintro ⟨hfailure, hcalls⟩
  have hmem : hook.invocation plugin (some left) ∈ (notifyFatal ((plugin, hook) :: hooks) (some left)).invocations := by
    unfold notifyFatal
    split
    · exact List.mem_cons_self
    · exact List.mem_cons_self
  have hreport : hook.report = none :=
    ((firstAccepted_iff hook plugin (some left)).mp (hcalls _ hmem)).resolve_left (Option.some_ne_none left)
  have hmsg : (hook.invocation plugin (some left)).message = none := by rw [message_invocation, hreport]
  have hfailure := hfailure rfl
  unfold notifyFatal at hfailure
  rw [hslot] at hfailure
  unfold throwIfPluginError at hfailure
  cases hres : failed (hook.result (some left)) with
  | true =>
    have hres' : failed (hook.invocation plugin (some left)).result = true := hres
    simp [hres, charge, throwIfPluginError, hres', hmsg] at hfailure
  | false =>
    have hres' : failed (hook.invocation plugin (some left)).result = false := hres
    simp [hres, charge, throwIfPluginError, hres', hmsg] at hfailure

theorem notifyLogged_charged_iff (hooks : List (Message × Hook)) (slot : Option Message) :
    Charged false (notifyLogged hooks slot) ↔ SingleReport slot hooks := by
  induction hooks generalizing slot with
  | nil =>
    refine ⟨fun _ => trivial, fun _ => ⟨fun h => ?_, fun i hi => ?_⟩⟩
    · cases h
    · cases hi
  | cons entry hooks ih =>
    obtain ⟨plugin, hook⟩ := entry
    have hrest := ih (slot.or hook.report)
    unfold notifyLogged SingleReport
    rw [Hook.slot_eq, ← hrest, ← firstAccepted_iff hook plugin slot]
    simp [Charged]

theorem notify_eq (plugins : List Plugin) (e : Event) : notify plugins e =
    (if e.notification.fatal then notifyFatal else notifyLogged)
      (hooksOf plugins e.notification e.behaviour) := by
  obtain ⟨n, behaviour⟩ := e
  cases n <;> rfl

theorem charged_iff (plugins : List Plugin) (e : Event) (slot : Option Message) :
    Charged e.notification.fatal (notify plugins e slot) ↔ NoneLeft plugins e slot := by
  rw [notify_eq, NoneLeft]
  cases e.notification.fatal with
  | false => exact notifyLogged_charged_iff _ slot
  | true =>
    simp only [if_true]
    cases slot with
    | none => exact ⟨fun _ => Or.inl rfl, fun _ => notifyFatal_charged _⟩
    | some left =>
      cases hooksOf plugins e.notification e.behaviour with
      | nil => exact ⟨fun _ => Or.inr rfl, fun _ => ⟨fun _ => rfl, fun i hi => by cases hi⟩⟩
      | cons entry hooks =>
        constructor
        · intro h
          exact (notifyFatal_not_charged entry hooks left h).elim
        · rintro (h | h)
          · cases h
          · cases h

/-- In every run of notifications on a thread, each one is charged with what its own hooks have done exactly if no
hook that may fail, and none that reports an error, is run behind one that has left its message. -/
theorem charged_along_iff (plugins : List Plugin) (events : List Event) :
    Along (step plugins) (fun slot e _ => Charged e.notification.fatal (notify plugins e slot)) events none ↔
      Allowed (step plugins) (NoneLeft plugins) events none := by
  have hkeep : ∀ (e : Event) (slot : Option Message), True → NoneLeft plugins e slot → True := fun _ _ _ _ => trivial
  exact along_iff_allowed hkeep (fun e slot _ => charged_iff plugins e slot) trivial

def quota : Plugin := ⟨"quota".toList, fun n => n = .vmStopping || n = .vmStarted⟩

def stoppingEvent : Event := ⟨.vmStopping, fun _ => .reports (some "disk full".toList) fun _ => .returns 0⟩

def startedEvent : Event := ⟨.vmStarted, fun _ => .returns 0⟩

/-- A message of a virtual machine that stops lets the next one not start, though its hook reports nothing. -/
theorem stopping_message_fails_start :
    (notify [quota] startedEvent none).failure = none ∧
      (notify [quota] startedEvent (step [quota] stoppingEvent none)).invocations =
        (notify [quota] startedEvent none).invocations ∧
      (notify [quota] startedEvent (step [quota] stoppingEvent none)).failure =
        some (.illegalStateChange "quota".toList) ∧
      ¬ Along (step [quota]) (fun slot e _ => Charged e.notification.fatal (notify [quota] e slot))
        [stoppingEvent, startedEvent] none := by
  refine ⟨rfl, rfl, rfl, ?_⟩
  rintro ⟨-, ⟨hfailure, -⟩, -⟩
  cases hfailure rfl

end WslPlus.Plugins
