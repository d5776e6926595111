import Mathlib.Data.List.Nodup
import WslPlus.Network.PortTracker

/-!
# What the guest and the host hold

The host grants or refuses an allocation, and honours every release. `HandleRequest` asks for what is not
tracked. `TrackPort` catches the exception when there is no memory for a new entry, and the allocation is
then granted but not tracked.

The messages are kept newest first.
-/

namespace WslPlus.Network

open List

inductive Message where
  /-- `ReadNextRequest` takes a notification; the call asks for an allocation or for none. -/
  | taken (callId : UInt64) (request : Option PortAllocation)
  /-- The host is asked for an allocation. If it is granted, it is recorded or not. -/
  | allocate (allocation : PortAllocation) (answer : Int) (recorded : Bool)
  | release (allocation : PortAllocation)
  | answered (callId : UInt64) (result : Int)
  deriving DecidableEq

def granted : List Message → List PortAllocation
  | [] => []
  | .allocate allocation answer _ :: older => if answer = 0 then allocation :: granted older else granted older
  | .release allocation :: older => (granted older).filter (· ≠ allocation)
  | .taken _ _ :: older | .answered _ _ :: older => granted older

def unrecorded : List Message → List PortAllocation
  | [] => []
  | .allocate allocation answer recorded :: older =>
    if answer = 0 then
      if recorded then (unrecorded older).filter (· ≠ allocation) else allocation :: unrecorded older
    else unrecorded older
  | .release allocation :: older => (unrecorded older).filter (· ≠ allocation)
  | .taken _ _ :: older | .answered _ _ :: older => unrecorded older

def Op.background : Op → Bool
  | .tick | .opens _ | .closes _ | .begin | .list | .listFails | .publish => true
  | .readNextRequest _ _ | .resolvePortZeroBind _ _ | .poll | .resume => false

/-- The tracker with `m_request`, `m_reply` and the result that `CompleteRequest` is about to post. -/
structure Exchange where
  tracker : Tracker
  request : Option UInt64 := none
  reply : Option Int := none
  result : Option (UInt64 × Int) := none
  log : List Message := []

inductive ExchangeOp where
  | background (op : Op)
  /-- `ProcessSecCompNotification` posts a notification. -/
  | post (callId : UInt64)
  /-- `GetCallInfo` reads the call, or throws. -/
  | read (call : Option BindCall) (answer : Int) (recorded : Bool)
  | complete
  /-- `ProcessSecCompNotification` gets the reply. -/
  | collect
  | resolve (allocation : Option PortAllocation) (answer : Int) (recorded : Bool)
  | poll
  | resume

namespace Exchange

def start (now : Nat) (sockets : List Socket) : Exchange where
  tracker := Tracker.start now sockets

/-- The keys of `m_allocatedPorts`. -/
def keys (x : Exchange) : List PortAllocation := x.tracker.allocatedPorts.map (·.1)

/-- `HandleRequest`, and `TrackPort` if the result is 0. Only a new entry needs memory. -/
def handleRequest (allocation : PortAllocation) (answer : Int) (recorded : Bool) (x : Exchange) :
    Int × Exchange :=
  let result := x.tracker.handleRequest allocation answer
  if AllocatedPorts.contains x.tracker.allocatedPorts allocation then
    (result, { x with tracker := x.tracker.trackPort allocation })
  else
    (result, { x with
      tracker := if result = 0 ∧ recorded then x.tracker.trackPort allocation else x.tracker
      log := .allocate allocation answer recorded :: x.log })

def handle (allocation : Option PortAllocation) (answer : Int) (recorded : Bool) (x : Exchange) :
    Int × Exchange :=
  match allocation with
  | some allocation => x.handleRequest allocation answer recorded
  | none => (0, x)

def setPc (pc : Pc) (x : Exchange) : Exchange := { x with tracker := { x.tracker with pc } }

def read (call : Option BindCall) (answer : Int) (recorded : Bool) (x : Exchange) : Exchange :=
  match x.request with
  | some callId =>
    let call := call.getD ⟨none, false⟩
    let (result, x) :=
      { x with request := none, log := .taken callId call.request :: x.log }.handle call.request answer recorded
    { x.setPc (if call.portZeroBind then .resolving else .polling true) with result := some (callId, result) }
  | none => x.setPc (.polling false)

def complete (x : Exchange) : Exchange :=
  match x.result, x.reply with
  | some (callId, result), none =>
    { x with reply := some result, result := none, log := .answered callId result :: x.log }
  | _, _ => x

/-- The allocations that `OnRefreshAllocatedPorts` asks the host to release. -/
def released (mode : NetworkingMode) (t : Tracker) (bindCall : Bool) : List PortAllocation :=
  match t.future, t.refresh, bindCall with
  | true, some (ports, timestamp), false => (AllocatedPorts.onRefresh mode ports timestamp t.allocatedPorts).2
  | _, _, _ => []

def poll (mode : NetworkingMode) (bindCall : Bool) (x : Exchange) : Exchange :=
  { x with
    tracker := x.tracker.poll mode bindCall
    log := (released mode x.tracker bindCall).foldl (fun log allocation => .release allocation :: log) x.log }

def step (mode : NetworkingMode) (op : ExchangeOp) (x : Exchange) : Exchange :=
  match op with
  | .background op => if op.background then { x with tracker := x.tracker.step mode op } else x
  | .post callId => if x.request = none then { x with request := some callId } else x
  | .read call answer recorded => if x.tracker.pc = .reading then x.read call answer recorded else x
  | .complete => x.complete
  | .collect => { x with reply := none }
  | .resolve allocation answer recorded =>
    if x.tracker.pc = .resolving ∧ x.result = none then (x.handle allocation answer recorded).2.setPc (.polling true)
    else x
  | .poll =>
    match x.tracker.pc, x.result with
    | .polling bindCall, none => x.poll mode bindCall
    | _, _ => x
  | .resume => if x.tracker.pc = .resuming then { x with tracker := x.tracker.resume } else x

end Exchange

def Message.follows (older : List Message) : Message → Prop
  | .taken _ _ => True
  -- Nothing is asked for that is granted and recorded.
  | .allocate allocation _ _ => allocation ∈ granted older → allocation ∈ unrecorded older
  | .release allocation => allocation ∈ granted older
  -- The result is that of the request that the call has led to, or 0.
  | .answered callId result =>
    (result = 0 ∧ ∃ request rest, older = .taken callId request :: rest) ∨
      ∃ allocation recorded rest, older = .allocate allocation result recorded :: .taken callId
    (some allocation) :: rest

def Follows : List Message → Prop
  | [] => True
  | message :: older => message.follows older ∧ Follows older

def Message.call : Message → Option UInt64
  | .taken callId _ => some callId
  | _ => none

def Message.reply : Message → Option UInt64
  | .answered callId _ => some callId
  | _ => none

/-- The notifications that were taken, and those that were answered, in their order. -/
def calls (log : List Message) : List UInt64 := (log.filterMap Message.call).reverse

def replies (log : List Message) : List UInt64 := (log.filterMap Message.reply).reverse

theorem calls_cons (message : Message) (log : List Message) :
    calls (message :: log) = calls log ++ message.call.toList := by
  unfold calls
  cases h : message.call <;> simp [h]

theorem replies_cons (message : Message) (log : List Message) :
    replies (message :: log) = replies log ++ message.reply.toList := by
  unfold replies
  cases h : message.reply <;> simp [h]

namespace AllocatedPorts

variable {allocated : AllocatedPorts} {allocation : PortAllocation}

theorem contains_iff : contains allocated allocation = true ↔ allocation ∈ allocated.map (·.1) := by
  simp [contains]

theorem keys_insertOrAssign (timeout : Option Nat) :
    (insertOrAssign allocated allocation timeout).map (·.1) =
      if allocation ∈ allocated.map (·.1) then allocated.map (·.1) else allocated.map (·.1) ++
    [allocation] := by
  by_cases hmem : allocation ∈ allocated.map (·.1)
  · rw [insertOrAssign, if_pos (contains_iff.mpr hmem), if_pos hmem, map_map]
    apply map_congr_left
    intro entry _
    rw [Function.comp_apply]
    split <;> rfl
  · rw [insertOrAssign, if_neg (mt contains_iff.mp hmem), if_neg hmem, map_append]
    rfl

theorem keys_onRefresh (mode : NetworkingMode) (ports : ActivePorts) (timestamp : Nat)
    (allocated : AllocatedPorts) :
    (((onRefresh mode ports timestamp allocated).1.map (·.1)) ++ (onRefresh mode ports timestamp allocated).2).Perm
      (allocated.map (·.1)) := by
  induction allocated with
  | nil => exact .nil
  | cons entry rest ih =>
    obtain ⟨allocation, timeout⟩ := entry
    simp only [onRefresh]
    split
    · exact ih.cons allocation
    · split
      · exact perm_middle.trans (ih.cons allocation)
      · exact ih.cons allocation

end AllocatedPorts

structure Holds (keys : List PortAllocation) (log : List Message) : Prop where
  nodup : keys.Nodup
  mem_iff : ∀ allocation, allocation ∈ keys ↔ allocation ∈ granted log ∧ allocation ∉ unrecorded log

namespace Holds

variable {keys : List PortAllocation} {log : List Message} {allocation : PortAllocation}

section

variable (h : Holds keys log)
include h

theorem taken (callId : UInt64) (request : Option PortAllocation) :
    Holds keys (.taken callId request :: log) := ⟨h.nodup, h.mem_iff⟩

theorem answered (callId : UInt64) (result : Int) :
    Holds keys (.answered callId result :: log) := ⟨h.nodup, h.mem_iff⟩

theorem refused {answer : Int} (hanswer : answer ≠ 0) (recorded : Bool) :
    Holds keys (.allocate allocation answer recorded :: log) := by
  refine ⟨h.nodup, ?_⟩
  intro allocation'
  rw [granted, unrecorded, if_neg hanswer, if_neg hanswer]
  exact h.mem_iff allocation'

theorem recorded (hnot : allocation ∉ keys) :
    Holds (keys ++ [allocation]) (.allocate allocation 0 true :: log) := by
  refine ⟨nodup_append.mpr ⟨h.nodup, nodup_singleton _, ?_⟩, ?_⟩
  · rintro a ha b hb rfl
    exact hnot (mem_singleton.mp hb ▸ ha)
  · intro allocation'
    have hold := h.mem_iff allocation'
    by_cases heq : allocation' = allocation
    · simp [granted, unrecorded, heq]
    · simp [granted, unrecorded, heq, hold]

theorem lost (hnot : allocation ∉ keys) :
    Holds keys (.allocate allocation 0 false :: log) := by
  refine ⟨h.nodup, ?_⟩
  intro allocation'
  have hold := h.mem_iff allocation'
  by_cases heq : allocation' = allocation
  · simp [granted, unrecorded, heq, hnot]
  · simp [granted, unrecorded, heq, hold]

theorem perm {keys' : List PortAllocation} (hperm : keys'.Perm keys) : Holds keys' log :=
  ⟨hperm.nodup_iff.mpr h.nodup, fun allocation => hperm.mem_iff.trans (h.mem_iff allocation)⟩

end

theorem release (h : Holds (allocation :: keys) log) : Holds keys (.release allocation :: log) := by
  obtain ⟨hnot, hnodup⟩ := nodup_cons.mp h.nodup
  refine ⟨hnodup, ?_⟩
  intro allocation'
  have hold := h.mem_iff allocation'
  by_cases heq : allocation' = allocation
  · simp [granted, unrecorded, heq, hnot]
  · rw [mem_cons, or_iff_right heq] at hold
    simp [granted, unrecorded, heq, hold]

theorem releases {kept released : List PortAllocation} (h : Holds (kept ++ released) log)
    (hfollows : Follows log) :
    Holds kept (released.foldl (fun log allocation => .release allocation :: log) log) ∧
      Follows (released.foldl (fun log allocation => .release allocation :: log) log) := by
  induction released generalizing log with
  | nil => exact ⟨(append_nil kept) ▸ h, hfollows⟩
  | cons allocation released ih =>
    have hfirst := h.perm perm_middle.symm
    apply ih hfirst.release
    exact ⟨((hfirst.mem_iff allocation).mp mem_cons_self).1, hfollows⟩

end Holds

theorem calls_releases (released : List PortAllocation) (log : List Message) :
    calls (released.foldl (fun log allocation => .release allocation :: log) log) = calls log ∧
      replies (released.foldl (fun log allocation => .release allocation :: log) log) = replies log := by
  induction released generalizing log with
  | nil => exact ⟨rfl, rfl⟩
  | cons allocation released ih =>
    obtain ⟨hcalls, hreplies⟩ := ih (.release allocation :: log)
    exact ⟨hcalls.trans (by simp [calls_cons, Message.call]), hreplies.trans (by simp [replies_cons, Message.reply])⟩

/-- What the handling of a request leaves. -/
structure Handled (x : Exchange) (allocation : Option PortAllocation) (result : Int) (x' : Exchange) :
    Prop where
  holds : Holds x'.keys x'.log
  follows : Follows x'.log
  result_eq : x'.result = x.result
  log : (result = 0 ∧ x'.log = x.log) ∨
    ∃ asked recorded, allocation = some asked ∧ x'.log = .allocate asked result recorded :: x.log

theorem Handled.calls {x x' : Exchange} {allocation : Option PortAllocation} {result : Int}
    (h : Handled x allocation result x') : Network.calls x'.log = Network.calls x.log := by
  rcases h.log with ⟨-, hlog⟩ | ⟨asked, recorded, -, hlog⟩
  · rw [hlog]
  · rw [hlog, calls_cons]
    exact append_nil _

theorem Handled.replies {x x' : Exchange} {allocation : Option PortAllocation} {result : Int}
    (h : Handled x allocation result x') : Network.replies x'.log = Network.replies x.log := by
  rcases h.log with ⟨-, hlog⟩ | ⟨asked, recorded, -, hlog⟩
  · rw [hlog]
  · rw [hlog, replies_cons]
    exact append_nil _

theorem Exchange.handled_request {x : Exchange} (hholds : Holds x.keys x.log) (hfollows : Follows x.log)
    (allocation : PortAllocation) (answer : Int) (recorded : Bool) :
    Handled x (some allocation) (x.handleRequest allocation answer recorded).1
      (x.handleRequest allocation answer recorded).2 := by
  have hkeys : (x.tracker.trackPort allocation).allocatedPorts.map (·.1) =
      if allocation ∈ x.keys then x.keys else x.keys ++ [allocation] := AllocatedPorts.keys_insertOrAssign _
  rw [Exchange.handleRequest, Tracker.handleRequest]
  by_cases hmem : allocation ∈ x.keys
  · rw [if_pos hmem] at hkeys
    simp only [if_pos (AllocatedPorts.contains_iff.mpr hmem)]
    refine ⟨?_, hfollows, rfl, .inl ⟨rfl, rfl⟩⟩
    rw [Exchange.keys, hkeys]
    exact hholds
  · rw [if_neg hmem] at hkeys
    simp only [if_neg (mt AllocatedPorts.contains_iff.mp hmem)]
    have hnew : (Message.allocate allocation answer recorded).follows x.log := by
      intro hgranted
      by_contra hrecorded
      exact hmem ((hholds.mem_iff allocation).mpr ⟨hgranted, hrecorded⟩)
    refine ⟨?_, ⟨hnew, hfollows⟩, rfl, .inr ⟨allocation, recorded, rfl, rfl⟩⟩
    by_cases hanswer : answer = 0
    · subst hanswer
      cases recorded with
      | true =>
        rw [if_pos ⟨rfl, rfl⟩, Exchange.keys, hkeys]
        exact hholds.recorded hmem
      | false =>
        rw [if_neg (by simp)]
        exact hholds.lost hmem
    · rw [if_neg fun h => hanswer h.1]
      exact hholds.refused hanswer recorded

theorem Exchange.handled {x : Exchange} (hholds : Holds x.keys x.log) (hfollows : Follows x.log)
    (allocation : Option PortAllocation) (answer : Int) (recorded : Bool) :
    Handled x allocation (x.handle allocation answer recorded).1 (x.handle allocation answer recorded).2 := by
  cases allocation with
  | none => exact ⟨hholds, hfollows, rfl, .inl ⟨rfl, rfl⟩⟩
  | some allocation => exact x.handled_request hholds hfollows allocation answer recorded

structure Answers (x : Exchange) : Prop where
  calls : calls x.log = replies x.log ++ (x.result.map (·.1)).toList
  result : ∀ callId result, x.result = some (callId, result) → (Message.answered callId result).follows x.log
  reading : x.tracker.pc = .reading → x.result = none
  resuming : x.tracker.pc = .resuming → x.result = none

structure Agrees (x : Exchange) : Prop where
  holds : Holds x.keys x.log
  follows : Follows x.log
  answers : Answers x

namespace Agrees

variable {x : Exchange} {mode : NetworkingMode}

theorem start (now : Nat) (sockets : List Socket) : Agrees (Exchange.start now sockets) := by
  refine ⟨⟨nodup_nil, ?_⟩, trivial, ⟨rfl, ?_, fun _ => rfl, fun _ => rfl⟩⟩
  · intro allocation
    simp [Exchange.start, Exchange.keys, Tracker.start, granted]
  · intro callId result heq
    cases heq

section

variable (h : Agrees x)
include h

theorem frame {tracker : Tracker} (request : Option UInt64) (reply : Option Int)
    (hallocated : tracker.allocatedPorts = x.tracker.allocatedPorts)
    (hpc : tracker.pc = x.tracker.pc ∨ x.result = none) :
    Agrees { x with tracker, request, reply } where
  holds := by
    have hkeys : Exchange.keys { x with tracker, request, reply } = x.keys := by rw [Exchange.keys, hallocated, Exchange.keys]
    rw [hkeys]
    exact h.holds
  follows := h.follows
  answers := by
    refine ⟨h.answers.calls, h.answers.result, ?_, ?_⟩
    · intro hreading
      rcases hpc with hpc | hnone
      · exact h.answers.reading (hpc ▸ hreading)
      · exact hnone
    · intro hresuming
      rcases hpc with hpc | hnone
      · exact h.answers.resuming (hpc ▸ hresuming)
      · exact hnone

theorem background {op : Op} (hop : op.background = true) :
    Agrees { x with tracker := x.tracker.step mode op } := by
  have hframe : (x.tracker.step mode op).allocatedPorts = x.tracker.allocatedPorts ∧
      (x.tracker.step mode op).pc = x.tracker.pc := by
    cases op with
    | readNextRequest _ _ | resolvePortZeroBind _ _ | poll | resume => cases hop
    | tick | opens _ | closes _ => exact ⟨rfl, rfl⟩
    | begin | listFails =>
      simp only [Tracker.step]
      split <;> exact ⟨rfl, rfl⟩
    | list =>
      simp only [Tracker.step, Tracker.list]
      split <;> exact ⟨rfl, rfl⟩
    | publish =>
      simp only [Tracker.step, Tracker.publish]
      split <;> exact ⟨rfl, rfl⟩
  exact h.frame x.request x.reply hframe.1 (.inl hframe.2)

theorem read (hreading : x.tracker.pc = .reading) (call : Option BindCall) (answer : Int)
    (recorded : Bool) : Agrees (x.read call answer recorded) := by
  have hnone := h.answers.reading hreading
  rw [Exchange.read]
  split
  · rename_i callId _
    set request := (call.getD ⟨none, false⟩).request
    set pc : Pc := if (call.getD ⟨none, false⟩).portZeroBind then .resolving else .polling true with hpc
    set y : Exchange := { x with request := none, log := .taken callId request :: x.log } with hy
    have hhandled := y.handled (h.holds.taken callId request) ⟨trivial, h.follows⟩ request answer recorded
    have hneither : pc ≠ .reading ∧ pc ≠ .resuming := by
      rw [hpc]
      split <;> simp
    refine ⟨hhandled.holds, hhandled.follows, ?_, ?_, fun hpc => absurd hpc hneither.1, fun hpc => absurd hpc hneither.2⟩
    · have hcalls : calls y.log = calls x.log ++ [callId] := calls_cons _ _
      have hreplies : replies y.log = replies x.log := by
        rw [hy, replies_cons]
        exact append_nil _
      have hbefore := h.answers.calls
      rw [hnone] at hbefore
      calc calls (y.handle request answer recorded).2.log = calls x.log ++ [callId] := hhandled.calls.trans hcalls
        _ = replies x.log ++ [callId] := by rw [hbefore, Option.map_none, Option.toList_none, append_nil]
        _ = replies (y.handle request answer recorded).2.log ++ [callId] := by rw [hhandled.replies, hreplies]
    · intro callId' result heq
      obtain ⟨rfl, rfl⟩ := Prod.mk.inj (Option.some.inj heq)
      rcases hhandled.log with ⟨hzero, hlog⟩ | ⟨asked, recorded', hasked, hlog⟩
      · exact .inl ⟨hzero, request, x.log, hlog⟩
      · exact .inr ⟨asked, recorded', x.log, by rw [← hasked]; exact hlog⟩
  · exact h.frame x.request x.reply rfl (.inr hnone)

theorem complete : Agrees x.complete := by
  rw [Exchange.complete]
  split
  · rename_i callId result hres _
    refine ⟨h.holds.answered callId result, ⟨h.answers.result callId result hres, h.follows⟩, ?_⟩
    have hcalls := h.answers.calls
    rw [hres] at hcalls
    refine ⟨?_, ?_, fun _ => rfl, fun _ => rfl⟩
    · calc calls (.answered callId result :: x.log) = calls x.log := by rw [calls_cons]; exact append_nil _
        _ = replies x.log ++ [callId] := hcalls
        _ = replies (.answered callId result :: x.log) ++ [] := by rw [replies_cons, append_nil]; rfl
    · intro _ _ heq
      cases heq
  · exact h

theorem resolve (hnone : x.result = none) (allocation : Option PortAllocation) (answer : Int)
    (recorded : Bool) : Agrees ((x.handle allocation answer recorded).2.setPc (.polling true)) := by
  have hhandled := x.handled h.holds h.follows allocation answer recorded
  refine ⟨hhandled.holds, hhandled.follows, ?_, ?_, ?_, ?_⟩
  · have hres : ((x.handle allocation answer recorded).2.setPc (.polling true)).result = x.result := hhandled.result_eq
    rw [hres]
    calc calls (x.handle allocation answer recorded).2.log = calls x.log := hhandled.calls
      _ = replies x.log ++ (x.result.map (·.1)).toList := h.answers.calls
      _ = _ := by rw [← hhandled.replies]; rfl
  · intro callId result heq
    have hres := hhandled.result_eq.trans hnone
    rw [show ((x.handle allocation answer recorded).2.setPc (.polling true)).result =
      (x.handle allocation answer recorded).2.result from rfl, hres] at heq
    cases heq
  · intro hpc
    cases hpc
  · intro hpc
    cases hpc

theorem poll (hnone : x.result = none) (bindCall : Bool) : Agrees (x.poll mode bindCall) := by
  have hkeys : ((x.tracker.poll mode bindCall).allocatedPorts.map (·.1) ++ Exchange.released mode x.tracker bindCall).Perm
      x.keys := by
    have hsame : (x.keys ++ []).Perm x.keys := by rw [append_nil]
    unfold Tracker.poll Exchange.released
    cases x.tracker.future with
    | false => exact hsame
    | true =>
      cases x.tracker.refresh with
      | none => exact hsame
      | some list =>
        cases bindCall with
        | true => exact hsame
        | false => exact AllocatedPorts.keys_onRefresh mode list.1 list.2 x.tracker.allocatedPorts
  obtain ⟨hholds, hfollows⟩ := (h.holds.perm hkeys).releases h.follows
  obtain ⟨hcalls, hreplies⟩ := calls_releases (Exchange.released mode x.tracker bindCall) x.log
  refine ⟨hholds, hfollows, ?_, ?_, fun _ => hnone, fun _ => hnone⟩
  · exact hcalls.trans (h.answers.calls.trans (congrArg (· ++ _) hreplies.symm))
  · intro callId result heq
    rw [show (x.poll mode bindCall).result = x.result from rfl, hnone] at heq
    cases heq

theorem resume (hresuming : x.tracker.pc = .resuming) : Agrees { x with tracker := x.tracker.resume } := by
  refine h.frame x.request x.reply ?_ (.inr (h.answers.resuming hresuming))
  rw [Tracker.resume]
  split <;> rfl

theorem step (op : ExchangeOp) : Agrees (x.step mode op) := by
  cases op with
  | background op =>
    simp only [Exchange.step]
    split
    · rename_i hop
      exact h.background hop
    · exact h
  | post callId =>
    simp only [Exchange.step]
    split
    · exact h.frame (some callId) x.reply rfl (.inl rfl)
    · exact h
  | read call answer recorded =>
    simp only [Exchange.step]
    split
    · rename_i hreading
      exact h.read hreading call answer recorded
    · exact h
  | complete => exact h.complete
  | collect => exact h.frame x.request none rfl (.inl rfl)
  | resolve allocation answer recorded =>
    simp only [Exchange.step]
    split
    · rename_i hpc
      exact h.resolve hpc.2 allocation answer recorded
    · exact h
  | poll =>
    simp only [Exchange.step]
    split
    · rename_i bindCall _ hnone
      exact h.poll hnone bindCall
    · exact h
  | resume =>
    simp only [Exchange.step]
    split
    · rename_i hresuming
      exact h.resume hresuming
    · exact h

end

end Agrees

theorem Follows.held {between older : List Message} {allocation : PortAllocation}
    (h : Follows (between ++ Message.allocate allocation 0 true :: older))
    (hnot : .release allocation ∉ between) :
    allocation ∈ granted (between ++ Message.allocate allocation 0 true :: older) ∧
      allocation ∉ unrecorded (between ++ Message.allocate allocation 0 true :: older) := by
  induction between with
  | nil => simp [granted, unrecorded]
  | cons message between ih =>
    rw [mem_cons, not_or] at hnot
    obtain ⟨hgranted, hrecorded⟩ := ih h.2 hnot.2
    rw [cons_append]
    cases message with
    | taken _ _ | answered _ _ => exact ⟨hgranted, hrecorded⟩
    | release other =>
      have hne : allocation ≠ other := fun heq => hnot.1 (heq ▸ rfl)
      simp [granted, unrecorded, hne, hgranted, hrecorded]
    | allocate other answer recorded =>
      -- It was not asked for in between, since it was held then.
      have hne : allocation ≠ other := by
        rintro rfl
        exact hrecorded (h.1 hgranted)
      rw [granted, unrecorded]
      split
      · split <;> simp [hne, hgranted, hrecorded]
      · exact ⟨hgranted, hrecorded⟩

theorem Follows.split {newer older : List Message} {message : Message}
    (h : Follows (newer ++ message :: older)) :
    message.follows older ∧ Follows older := by
  induction newer with
  | nil => exact h
  | cons _ newer ih => exact ih h.2

/-- The keys are what is granted and recorded; that is not asked for again before it is released; and the calls
are answered in their order, each with 0 or what the host has answered to its request. -/
theorem guest_and_host_agree (mode : NetworkingMode) (now : Nat) (sockets : List Socket)
    (ops : List ExchangeOp) :
    let x := runSteps (Exchange.step mode) ops (Exchange.start now sockets)
    (∀ allocation, allocation ∈ x.keys ↔ allocation ∈ granted x.log ∧ allocation ∉ unrecorded x.log) ∧
    (∀ newer between older allocation answer recorded,
      x.log = newer ++ Message.allocate allocation answer recorded ::
        (between ++ Message.allocate allocation 0 true :: older) →
        .release allocation ∈ between) ∧
    calls x.log = replies x.log ++ (x.result.map (·.1)).toList ∧
    (x.tracker.pc = .reading → x.result = none) ∧
    ∀ newer callId result older, x.log = newer ++ Message.answered callId result :: older →
      (Message.answered callId result).follows older := by
  intro x
  have h : Agrees x := inv_runSteps_of_step (fun op _ h => h.step op) (.start now sockets)
  refine ⟨h.holds.mem_iff, ?_, h.answers.calls, h.answers.reading, ?_⟩
  · intro newer between older allocation answer recorded hlog
    obtain ⟨hasked, hbefore⟩ := Follows.split (hlog ▸ h.follows)
    by_contra hnot
    obtain ⟨hgranted, hrecorded⟩ := hbefore.held hnot
    exact hrecorded (hasked hgranted)
  · intro newer callId result older hlog
    exact (Follows.split (hlog ▸ h.follows)).1

def AskedOnce (log : List Message) : Prop :=
  ∀ newer between older allocation answer answer' recorded recorded',
    log = newer ++ Message.allocate allocation answer recorded ::
      (between ++ Message.allocate allocation answer' recorded' :: older) →
      .release allocation ∈ between

def http : PortAllocation where
  port := 80
  family := .inet
  protocol := .tcp
  address := {}

/-- A refused allocation is asked for at every bind, and one that is granted without being recorded is no key. -/
theorem refused_asked_again : let bind (callId : UInt64) (answer : Int) (recorded : Bool) : List ExchangeOp :=
      [.post callId, .read (some ⟨some http, false⟩) answer recorded, .complete, .collect, .poll, .resume]
    let refused := runSteps (Exchange.step .nat) (bind 1 (-98) true ++ bind 2 (-98) true) (Exchange.start 0 [])
    let lost := runSteps (Exchange.step .nat) (bind 1 0 false) (Exchange.start 0 [])
    ¬ AskedOnce refused.log ∧ ¬ ∀ allocation, allocation ∈ lost.keys ↔ allocation ∈ granted lost.log := by
  refine ⟨?_, ?_⟩
  · intro h
    have hbetween := h [.answered 2 (-98)] [.taken 2 (some http), .answered 1 (-98)] [.taken 1 (some http)] http (-98) (-98)
      true true (by decide)
    revert hbetween
    decide
  · intro h
    exact absurd ((h http).mpr (by decide)) (by decide)

end WslPlus.Network
