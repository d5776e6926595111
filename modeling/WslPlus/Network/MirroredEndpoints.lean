import Mathlib.Data.List.Perm.Subperm
import WslPlus.Network.MirroredSchedule

/-!
# The endpoints of the mirrored networks

`AddNetworkEndpoint` creates an endpoint for a network that has none and hands it to the manager. An endpoint
that the manager could not add waits among the failed ones; a timer tries it again, three times at most.
`RemoveNetwork` takes the endpoint of a network away.

`AddNetworkEndpoint` runs on the networking queue, one call after the other, and takes the network lock twice:
to look for the network, and to add the endpoint. Every other step holds the lock from its start to its end.
-/

namespace WslPlus.Network.MirroredEndpoints

open List

open Mirrored (Timer)

inductive HResult where
  | ok
  | endpointNotFound
  | endpointAlreadyAttached
  | errorNotFound
  | other (code : Nat)
  deriving DecidableEq

structure NetworkEndpoint where
  networkId : Nat
  endpointId : Nat
  deriving DecidableEq

structure EndpointTracking where
  networkEndpoint : NetworkEndpoint
  retryCount : Nat

/-- How the steps of an attempt to add an endpoint end. The results that are only logged are left out. -/
structure Attempt where
  prepared : HResult := .ok
  addHcsEndpoint : HResult := .ok
  refreshHcsEndpoint : HResult := .ok
  sendEndpointStateToGns : HResult := .ok
  /-- The endpoint gets its tracked state and a place among the active ones. -/
  tracked : HResult := .ok
  failureTracked : Bool := true

def throwIfFailed (hr : HResult) : Except HResult Unit := if hr = .ok then .ok () else .error hr

/-- The body of the `try` block of `AddEndpointImpl`. -/
def Attempt.result (a : Attempt) : Except HResult Unit := do
  throwIfFailed a.prepared
  if a.addHcsEndpoint ≠ .endpointAlreadyAttached then throwIfFailed a.addHcsEndpoint
  throwIfFailed a.refreshHcsEndpoint
  throwIfFailed a.sendEndpointStateToGns
  throwIfFailed a.tracked

def maxAddEndpointRetryCount : Nat := 3

structure State where
  stopped : Bool := false
  networkEndpoints : List NetworkEndpoint := []
  failedEndpointProperties : List EndpointTracking := []
  createEndpointFailureTimer : Timer := {}
  networkIdMappings : List NetworkEndpoint := []
  /-- The next id of `CoCreateGuid`. -/
  nextGuid : Nat := 0
  /-- The endpoint that a call of `AddNetworkEndpoint` has not handed over yet. -/
  adding : Option NetworkEndpoint := none
  /-- The networks that have been removed, with no call of `AddNetworkEndpoint` for them since. -/
  removed : List Nat := []

namespace State

def doesEndpointExist (s : State) (networkId : Nat) : Bool :=
  !s.stopped && s.networkEndpoints.any fun e => e.networkId == networkId

def addEndpointImpl (s : State) (t : EndpointTracking) (a : Attempt) : State :=
  match a.result with
  | .ok _ => { s with networkEndpoints := s.networkEndpoints ++ [t.networkEndpoint] }
  | .error hr =>
    if hr = .endpointNotFound then s
    else if maxAddEndpointRetryCount < t.retryCount + 1 then s
    else if a.failureTracked then
      { s with
        failedEndpointProperties := s.failedEndpointProperties ++ [{ t with retryCount := t.retryCount + 1 }]
        createEndpointFailureTimer := s.createEndpointFailureTimer.set }
    else s

def addAll (s : State) : List EndpointTracking → (Nat → Attempt) → State
  | [], _ => s
  | t :: ts, attempt => (s.addEndpointImpl t (attempt 0)).addAll ts fun n => attempt (n + 1)

/-- The first half of `AddNetworkEndpoint`, up to the call of the manager. -/
def beginAdd (s : State) (networkId : Nat) : State :=
  let called := { s with removed := s.removed.filter (· ≠ networkId) }
  if called.doesEndpointExist networkId then called
  else
    match called.networkIdMappings.find? fun e => e.networkId == networkId with
    | some known => { called with adding := some { networkId := networkId, endpointId := known.endpointId } }
    | none =>
      { called with
        adding := some { networkId := networkId, endpointId := called.nextGuid }
        nextGuid := called.nextGuid + 1 }

def addEndpoint (s : State) (e : NetworkEndpoint) (a : Attempt) : State :=
  if s.stopped then s else s.addEndpointImpl { networkEndpoint := e, retryCount := 0 } a

/-- The second half of `AddNetworkEndpoint`. The id of a new endpoint is kept unless the memory is short. -/
def endAdd (s : State) (e : NetworkEndpoint) (a : Attempt) (recorded : Bool) : State :=
  let added := { s with adding := none }.addEndpoint e a
  if recorded && !added.networkIdMappings.any fun known => known.networkId == e.networkId then
    { added with networkIdMappings := added.networkIdMappings ++ [e] }
  else added

def removeEndpoint (s : State) (endpointId : Nat) : State :=
  { s with
    failedEndpointProperties := s.failedEndpointProperties.filter fun t => t.networkEndpoint.endpointId ≠ endpointId
    networkEndpoints := s.networkEndpoints.eraseP fun e => e.endpointId == endpointId }

def removeNetwork (s : State) (networkId : Nat) : Except HResult State :=
  match s.networkEndpoints.find? fun e => e.networkId == networkId with
  | none => .error .errorNotFound
  | some foundEndpoint => .ok (s.removeEndpoint foundEndpoint.endpointId)

def createEndpointFailureTimerFired (s : State) (attempt : Nat → Attempt) : State :=
  if s.createEndpointFailureTimer.queued = 0 then s
  else
    let taken := { s with createEndpointFailureTimer := s.createEndpointFailureTimer.taken }
    if taken.stopped then taken
    else { taken with failedEndpointProperties := [] }.addAll taken.failedEndpointProperties attempt

end State

inductive EndpointOp where
  /-- A call of `AddNetworkEndpoint` begins. -/
  | addNetworkEndpoint (networkId : Nat)
  | createFailed
  | addEndpoint (attempt : Attempt) (recorded : Bool)
  | failureTimerDue
  | failureTimerFired (attempt : Nat → Attempt)
  | removeNetwork (networkId : Nat)
  | serviceDisconnect
  | stop

namespace State

def step (op : EndpointOp) (s : State) : State :=
  match op with
  | .addNetworkEndpoint networkId => if s.adding.isSome then s else s.beginAdd networkId
  | .createFailed => { s with adding := none }
  | .addEndpoint attempt recorded =>
    match s.adding with
    | none => s
    | some e => s.endAdd e attempt recorded
  | .failureTimerDue => { s with createEndpointFailureTimer := s.createEndpointFailureTimer.due }
  | .failureTimerFired attempt => s.createEndpointFailureTimerFired attempt
  | .removeNetwork networkId =>
    if s.stopped then s
    else
      let called := { s with removed := networkId :: s.removed }
      match called.removeNetwork networkId with
      | .ok removed => removed
      | .error _ => called
  | .serviceDisconnect => if s.stopped then s else { s with networkEndpoints := [] }
  | .stop => { s with stopped := true, networkEndpoints := [] }

end State

/-- A network has one endpoint at most, and none after it has been removed. -/
structure State.Exclusive (s : State) : Prop where
  unique : (s.networkEndpoints.map NetworkEndpoint.networkId).Nodup
  gone : ∀ e ∈ s.networkEndpoints, e.networkId ∉ s.removed

def State.NotWaiting (s : State) (networkId : Nat) : Prop :=
  ∀ t ∈ s.failedEndpointProperties, t.networkEndpoint.networkId ≠ networkId

instance State.NotWaiting.decidable (s : State) (networkId : Nat) : Decidable (s.NotWaiting networkId) :=
  inferInstanceAs (Decidable (∀ t ∈ s.failedEndpointProperties, t.networkEndpoint.networkId ≠ networkId))

/-- A network is added and removed only while no endpoint of it waits for another attempt, and removed only
while no endpoint of it is being added. -/
def State.Orderly (op : EndpointOp) (s : State) : Prop :=
  match op with
  | .addNetworkEndpoint networkId =>
    s.stopped = false → s.adding = none → s.doesEndpointExist networkId = false → s.NotWaiting networkId
  | .removeNetwork networkId =>
    s.stopped = false → s.NotWaiting networkId ∧ ∀ e ∈ s.adding, e.networkId ≠ networkId
  | _ => True

instance State.Orderly.decidable (op : EndpointOp) (s : State) : Decidable (s.Orderly op) :=
  match op with
  | .addNetworkEndpoint networkId => inferInstanceAs (Decidable
      (s.stopped = false → s.adding = none → s.doesEndpointExist networkId = false → s.NotWaiting networkId))
  | .removeNetwork networkId => inferInstanceAs (Decidable
      (s.stopped = false → s.NotWaiting networkId ∧ ∀ e ∈ s.adding, e.networkId ≠ networkId))
  | .createFailed => .isTrue trivial
  | .addEndpoint _ _ => .isTrue trivial
  | .failureTimerDue => .isTrue trivial
  | .failureTimerFired _ => .isTrue trivial
  | .serviceDisconnect => .isTrue trivial
  | .stop => .isTrue trivial

namespace State

variable {s s' : State} {e : NetworkEndpoint}

def entries (s : State) : List NetworkEndpoint :=
  s.networkEndpoints ++ (s.failedEndpointProperties.map EndpointTracking.networkEndpoint ++ s.adding.toList)

def known (s : State) : List NetworkEndpoint := s.entries ++ s.networkIdMappings

/-- A network has one endpoint at most among all that are tracked, and an endpoint id belongs to one
network. -/
structure Tracked (s : State) : Prop where
  unique : (s.entries.map NetworkEndpoint.networkId).Nodup
  gone : ∀ e ∈ s.entries, e.networkId ∉ s.removed
  ids : ∀ x ∈ s.known, ∀ y ∈ s.known, x.endpointId = y.endpointId → x.networkId = y.networkId
  fresh : ∀ x ∈ s.known, x.endpointId < s.nextGuid

theorem nodup_of_subperm {l l' : List NetworkEndpoint} (hsub : l'.Subperm l)
    (h : (l.map NetworkEndpoint.networkId).Nodup) : (l'.map NetworkEndpoint.networkId).Nodup := by
  obtain ⟨m, hperm, hsublist⟩ := hsub
  exact (hperm.map _).nodup_iff.mp (h.sublist (hsublist.map _))

theorem Tracked.of_subperm (h : s.Tracked) (hsub : s'.entries.Subperm s.entries)
    (hmappings : ∀ x ∈ s'.networkIdMappings, x ∈ s.known) (hrem : ∀ id ∈ s'.removed, id ∈ s.removed)
    (hguid : s'.nextGuid = s.nextGuid) : s'.Tracked := by
  have hknown : ∀ x ∈ s'.known, x ∈ s.known := by
    intro x hx
    rcases mem_append.mp hx with hx | hx
    · exact mem_append_left _ (hsub.subset hx)
    · exact hmappings x hx
  refine ⟨nodup_of_subperm hsub h.unique, ?_, ?_, ?_⟩
  · intro e he hgone
    exact h.gone e (hsub.subset he) (hrem _ hgone)
  · intro x hx y hy
    exact h.ids x (hknown x hx) y (hknown y hy)
  · intro x hx
    rw [hguid]
    exact h.fresh x (hknown x hx)

theorem Tracked.exclusive (h : s.Tracked) : s.Exclusive := by
  constructor
  · exact h.unique.sublist ((sublist_append_left _ _).map _)
  · intro e he
    exact h.gone e (mem_append_left _ he)

theorem entries_addEndpointImpl (s : State) (t : EndpointTracking) (a : Attempt) :
    (s.addEndpointImpl t a).entries.Subperm (t.networkEndpoint :: s.entries) := by
  have hdropped : s.entries.Subperm (t.networkEndpoint :: s.entries) := (sublist_cons_self _ _).subperm
  unfold addEndpointImpl
  split
  · apply List.Perm.subperm
    simp only [entries, append_assoc, singleton_append]
    exact perm_middle
  · split
    · exact hdropped
    · split
      · exact hdropped
      · split
        · apply List.Perm.subperm
          simp only [entries, map_append, map_cons, map_nil, append_assoc,
            singleton_append]
          exact (perm_middle.append_left _).trans perm_middle
        · exact hdropped

/-- An attempt touches nothing else. -/
structure SameElse (s s' : State) : Prop where
  stopped : s'.stopped = s.stopped
  networkIdMappings : s'.networkIdMappings = s.networkIdMappings
  nextGuid : s'.nextGuid = s.nextGuid
  removed : s'.removed = s.removed

theorem SameElse.trans {s₁ s₂ s₃ : State} (h : SameElse s₁ s₂) (h' : SameElse s₂ s₃) : SameElse s₁ s₃ :=
  ⟨h'.stopped.trans h.stopped, h'.networkIdMappings.trans h.networkIdMappings, h'.nextGuid.trans h.nextGuid,
    h'.removed.trans h.removed⟩

theorem sameElse_addEndpointImpl (s : State) (t : EndpointTracking) (a : Attempt) :
    SameElse s (s.addEndpointImpl t a) := by
  unfold addEndpointImpl
  split
  · exact ⟨rfl, rfl, rfl, rfl⟩
  · split
    · exact ⟨rfl, rfl, rfl, rfl⟩
    · split
      · exact ⟨rfl, rfl, rfl, rfl⟩
      · split
        · exact ⟨rfl, rfl, rfl, rfl⟩
        · exact ⟨rfl, rfl, rfl, rfl⟩

theorem addAll_spec (ts : List EndpointTracking) (attempt : Nat → Attempt) (s : State) :
    (s.addAll ts attempt).entries.Subperm (ts.map EndpointTracking.networkEndpoint ++ s.entries) ∧
      SameElse s (s.addAll ts attempt) := by
  induction ts generalizing s attempt with
  | nil => exact ⟨List.Subperm.refl _, rfl, rfl, rfl, rfl⟩
  | cons t ts ih =>
    obtain ⟨hentries, hsame⟩ := ih (fun n => attempt (n + 1)) (s.addEndpointImpl t (attempt 0))
    refine ⟨hentries.trans ?_, (sameElse_addEndpointImpl s t _).trans hsame⟩
    apply ((subperm_append_left _).mpr (entries_addEndpointImpl s t _)).trans
    exact perm_middle.subperm

theorem entries_of_adding (hadding : s.adding = some e) :
    s.entries.Perm (e :: { s with adding := none }.entries) := by
  simp only [entries, hadding, Option.toList_some, Option.toList_none, append_nil]
  rw [← append_assoc]
  exact perm_append_singleton _ _

section

variable (h : s.Tracked)
include h

theorem Tracked.createFailed : { s with adding := none }.Tracked := by
  refine h.of_subperm (List.Sublist.subperm ?_) (fun x hx => mem_append_right _ hx) (fun _ => id) rfl
  exact (List.Sublist.append_left (nil_sublist _) _).append_left _

theorem Tracked.endAdd (hstop : s.stopped = false) (hadding : s.adding = some e) (a : Attempt)
    (recorded : Bool) : (s.endAdd e a recorded).Tracked ∧ (s.endAdd e a recorded).stopped = false := by
  have hsame := sameElse_addEndpointImpl { s with adding := none } { networkEndpoint := e, retryCount := 0 } a
  have hentries := entries_addEndpointImpl { s with adding := none } { networkEndpoint := e, retryCount := 0 } a
  have hadd : { s with adding := none }.addEndpoint e a =
      { s with adding := none }.addEndpointImpl { networkEndpoint := e, retryCount := 0 } a := by
    rw [addEndpoint, if_neg (by rw [hstop]; exact Bool.false_ne_true)]
  have hsub := hentries.trans (entries_of_adding hadding).symm.subperm
  have hmappings : ∀ x ∈ s.networkIdMappings, x ∈ s.known := fun x hx => mem_append_right _ hx
  unfold State.endAdd
  rw [hadd]
  generalize { s with adding := none }.addEndpointImpl { networkEndpoint := e, retryCount := 0 } a = added at *
  dsimp only
  split
  · refine ⟨h.of_subperm hsub ?_ ?_ hsame.nextGuid, hsame.stopped.trans hstop⟩
    · intro x hx
      rcases mem_append.mp hx with hx | hx
      · rw [hsame.networkIdMappings] at hx
        exact hmappings x hx
      · rw [mem_singleton.mp hx]
        exact mem_append_left _ ((entries_of_adding hadding).mem_iff.mpr (mem_cons_self ..))
    · intro id hid
      exact hsame.removed ▸ hid
  · refine ⟨h.of_subperm hsub ?_ ?_ hsame.nextGuid, hsame.stopped.trans hstop⟩
    · rw [hsame.networkIdMappings]
      exact hmappings
    · intro id hid
      exact hsame.removed ▸ hid

theorem Tracked.failureTimerFired (hstop : s.stopped = false) (attempt : Nat → Attempt) :
    (s.createEndpointFailureTimerFired attempt).Tracked ∧
      (s.createEndpointFailureTimerFired attempt).stopped = false := by
  have hrun : ¬ s.stopped = true := by
    rw [hstop]
    exact Bool.false_ne_true
  unfold createEndpointFailureTimerFired
  split
  · exact ⟨h, hstop⟩
  · dsimp only
    rw [if_neg hrun]
    obtain ⟨hentries, hsame⟩ := addAll_spec s.failedEndpointProperties attempt
      { s with createEndpointFailureTimer := s.createEndpointFailureTimer.taken, failedEndpointProperties := [] }
    refine ⟨h.of_subperm (hentries.trans ?_) ?_ ?_ hsame.nextGuid, hsame.stopped.trans hstop⟩
    · simp only [entries, map_nil, nil_append]
      rw [← append_assoc, ← append_assoc]
      exact (perm_append_comm.append_right _).subperm
    · rw [hsame.networkIdMappings]
      exact fun x hx => mem_append_right _ hx
    · rw [hsame.removed]
      exact fun _ => id

theorem Tracked.removed {networkId : Nat} (hsub : s'.entries.Sublist s.entries)
    (hnone : ∀ e ∈ s'.entries, e.networkId ≠ networkId) (hmappings : s'.networkIdMappings = s.networkIdMappings)
    (hrem : s'.removed = networkId :: s.removed) (hguid : s'.nextGuid = s.nextGuid) : s'.Tracked := by
  have htracked : { s' with removed := s.removed }.Tracked := by
    refine h.of_subperm hsub.subperm ?_ (fun _ => id) hguid
    intro x hx
    exact mem_append_right _ (hmappings ▸ hx)
  refine ⟨htracked.unique, ?_, htracked.ids, htracked.fresh⟩
  intro e he
  rw [hrem, mem_cons, not_or]
  exact ⟨hnone e he, htracked.gone e he⟩

theorem Tracked.networkId_eraseP (he : e ∈ s.networkEndpoints) :
    ∀ x ∈ s.networkEndpoints.eraseP (fun x => x.endpointId == e.endpointId), x.networkId ≠ e.networkId := by
  have hknown : ∀ x ∈ s.networkEndpoints, x ∈ s.known := fun x hx =>
    mem_append_left _ (mem_append_left _ hx)
  obtain ⟨found, l₁, l₂, _, hfound, hsplit, herase⟩ :=
    exists_of_eraseP (p := fun x => x.endpointId == e.endpointId) he (beq_self_eq_true e.endpointId)
  have hmem : found ∈ s.networkEndpoints := by
    rw [hsplit]
    exact mem_append_right _ (mem_cons_self ..)
  have hnetwork : found.networkId = e.networkId := h.ids found (hknown found hmem) e (hknown e he) (beq_iff_eq.mp hfound)
  have hunique := h.exclusive.unique
  rw [hsplit, map_append, map_cons, perm_middle.nodup_iff, nodup_cons,
    ← map_append] at hunique
  intro x hx hsame
  rw [herase] at hx
  apply hunique.1
  rw [hnetwork, ← hsame]
  exact mem_map_of_mem hx

theorem Tracked.removeNetwork {networkId : Nat} (hstop : s.stopped = false)
    (hwait : s.NotWaiting networkId) (hadding : ∀ e ∈ s.adding, e.networkId ≠ networkId) :
    (s.step (.removeNetwork networkId)).Tracked ∧ (s.step (.removeNetwork networkId)).stopped = false := by
  have hrun : ¬ s.stopped = true := by
    rw [hstop]
    exact Bool.false_ne_true
  -- the endpoints that wait or are being added are of other networks
  have hothers : ∀ e ∈ s.failedEndpointProperties.map EndpointTracking.networkEndpoint ++ s.adding.toList,
      e.networkId ≠ networkId := by
    intro e he
    rcases mem_append.mp he with he | he
    · obtain ⟨t, ht, rfl⟩ := mem_map.mp he
      exact hwait t ht
    · exact hadding e (Option.mem_toList.mp he)
  rw [step, if_neg hrun]
  dsimp only [State.removeNetwork]
  cases hfind : s.networkEndpoints.find? fun e => e.networkId == networkId with
  | none =>
    refine ⟨h.removed (List.Sublist.refl _) ?_ rfl rfl rfl, hstop⟩
    intro e he
    rcases mem_append.mp he with he | he
    · have hne := find?_eq_none.mp hfind e he
      simpa using hne
    · exact hothers e he
  | some e =>
    have hmem := mem_of_find?_eq_some hfind
    have hnetwork : e.networkId = networkId := by simpa using find?_some hfind
    have hsub : (s.removeEndpoint e.endpointId).entries.Sublist s.entries :=
      eraseP_sublist.append ((filter_sublist.map _).append_right _)
    refine ⟨h.removed hsub ?_ rfl rfl rfl, hstop⟩
    intro x hx
    rcases mem_append.mp hx with hx | hx
    · rw [← hnetwork]
      exact h.networkId_eraseP hmem x hx
    · exact hothers x (((filter_sublist.map _).append_right _).subset hx)

theorem Tracked.adding (hnew : ∀ x ∈ s.entries, x.networkId ≠ e.networkId)
    (hid : ∀ x ∈ s.known, x.endpointId = e.endpointId → x.networkId = e.networkId)
    (hentries : s'.entries = s.entries ++ [e]) (hmappings : s'.networkIdMappings = s.networkIdMappings)
    (hrem : ∀ id, id ∈ s'.removed ↔ id ∈ s.removed ∧ id ≠ e.networkId) (hguid : s.nextGuid ≤ s'.nextGuid)
    (hlt : e.endpointId < s'.nextGuid) : s'.Tracked := by
  have hknown : ∀ x ∈ s'.known, x ∈ s.known ∨ x = e := by
    intro x hx
    rw [known, hentries, hmappings] at hx
    simp only [mem_append, mem_singleton] at hx
    rcases hx with (hx | hx) | hx
    · exact Or.inl (mem_append_left _ hx)
    · exact Or.inr hx
    · exact Or.inl (mem_append_right _ hx)
  refine ⟨?_, ?_, ?_, ?_⟩
  · rw [hentries, map_append, nodup_append]
    refine ⟨h.unique, pairwise_singleton _ _, ?_⟩
    intro id hx id' he
    obtain ⟨x, hmem, rfl⟩ := mem_map.mp hx
    rw [mem_singleton.mp he]
    exact hnew x hmem
  · intro x hx
    rw [hrem]
    rintro ⟨hgone, hne⟩
    rw [hentries, mem_append, mem_singleton] at hx
    rcases hx with hx | rfl
    · exact h.gone x hx hgone
    · exact hne rfl
  · intro x hx y hy hsame
    rcases hknown x hx with hx | rfl
    · rcases hknown y hy with hy | rfl
      · exact h.ids x hx y hy hsame
      · exact hid x hx hsame
    · rcases hknown y hy with hy | rfl
      · exact (hid y hy hsame.symm).symm
      · rfl
  · intro x hx
    rcases hknown x hx with hx | rfl
    · exact Nat.lt_of_lt_of_le (h.fresh x hx) hguid
    · exact hlt

theorem Tracked.beginAdd {networkId : Nat} (hstop : s.stopped = false) (hadding : s.adding = none)
    (hwait : s.doesEndpointExist networkId = false → s.NotWaiting networkId) :
    (s.beginAdd networkId).Tracked ∧ (s.beginAdd networkId).stopped = false := by
  have hcalled : { s with removed := s.removed.filter (· ≠ networkId) }.Tracked :=
    h.of_subperm (List.Subperm.refl _) (fun x hx => mem_append_right _ hx)
      (fun id hid => (mem_filter.mp hid).1) rfl
  have hrem : ∀ id, id ∈ s.removed.filter (· ≠ networkId) ↔ id ∈ s.removed ∧ id ≠ networkId := by
    intro id
    rw [mem_filter, decide_eq_true_eq]
  unfold State.beginAdd
  dsimp only
  split
  · exact ⟨hcalled, hstop⟩
  rename_i hexists
  have hexists : s.doesEndpointExist networkId = false := Bool.eq_false_iff.mpr hexists
  have hnew : ∀ x ∈ s.entries, x.networkId ≠ networkId := by
    intro x hx
    simp only [entries, hadding, Option.toList_none, append_nil] at hx
    rcases mem_append.mp hx with hx | hx
    · simp only [doesEndpointExist, hstop, Bool.not_false, Bool.true_and, any_eq_false, beq_iff_eq] at hexists
      exact hexists x hx
    · obtain ⟨t, ht, rfl⟩ := mem_map.mp hx
      exact hwait hexists t ht
  have hentries : ∀ e, s.entries ++ [e] = s.networkEndpoints ++
      (s.failedEndpointProperties.map EndpointTracking.networkEndpoint ++ (some e).toList) := by
    intro e
    simp [entries, hadding]
  split
  · rename_i known hfind
    have hmem : known ∈ s.known := mem_append_right _ (mem_of_find?_eq_some hfind)
    have hnetwork : known.networkId = networkId := by simpa using find?_some hfind
    refine ⟨h.adding (e := ⟨networkId, known.endpointId⟩) hnew ?_ (hentries _).symm rfl hrem (Nat.le_refl _)
      (h.fresh known hmem), hstop⟩
    intro x hx hsame
    exact (h.ids x hx known hmem hsame).trans hnetwork
  · refine ⟨h.adding (e := ⟨networkId, s.nextGuid⟩) hnew ?_ (hentries _).symm rfl hrem (Nat.le_succ _)
      (Nat.lt_succ_self _), hstop⟩
    intro x hx hsame
    exact absurd hsame (Nat.ne_of_lt (h.fresh x hx))

end

structure Inv (s : State) : Prop where
  stopped : s.stopped = true → s.networkEndpoints = []
  running : s.stopped = false → s.Tracked

theorem Inv.exclusive (h : s.Inv) : s.Exclusive := by
  cases hstop : s.stopped with
  | true =>
    have hnone := h.stopped hstop
    constructor
    · rw [hnone]
      exact nodup_nil
    · intro e he
      rw [hnone] at he
      cases he
  | false => exact (h.running hstop).exclusive

theorem inv_of_tracked (h : s.Tracked ∧ s.stopped = false) : s.Inv := by
  constructor
  · rw [h.2]
    intro hfalse
    cases hfalse
  · intro _
    exact h.1

theorem stopped_step {op : EndpointOp} (hstop : s.stopped = true) (hnone : s.networkEndpoints = []) :
    (s.step op).stopped = true ∧ (s.step op).networkEndpoints = [] := by
  cases op with
  | addNetworkEndpoint networkId =>
    simp only [step]
    split
    · exact ⟨hstop, hnone⟩
    · unfold beginAdd
      dsimp only
      split
      · exact ⟨hstop, hnone⟩
      · split
        · exact ⟨hstop, hnone⟩
        · exact ⟨hstop, hnone⟩
  | addEndpoint a recorded =>
    simp only [step]
    split
    · exact ⟨hstop, hnone⟩
    · rename_i e _
      have hadd : { s with adding := none }.addEndpoint e a = { s with adding := none } := if_pos hstop
      unfold endAdd
      rw [hadd]
      dsimp only
      split
      · exact ⟨hstop, hnone⟩
      · exact ⟨hstop, hnone⟩
  | failureTimerFired attempt =>
    simp only [step, createEndpointFailureTimerFired, if_pos hstop]
    split
    · exact ⟨hstop, hnone⟩
    · exact ⟨hstop, hnone⟩
  | removeNetwork networkId =>
    rw [step, if_pos hstop]
    exact ⟨hstop, hnone⟩
  | serviceDisconnect =>
    rw [step, if_pos hstop]
    exact ⟨hstop, hnone⟩
  | createFailed => exact ⟨hstop, hnone⟩
  | failureTimerDue => exact ⟨hstop, hnone⟩
  | stop => exact ⟨rfl, rfl⟩

theorem Inv.step {op : EndpointOp} (h : s.Inv) (horderly : s.Orderly op) : (s.step op).Inv := by
  cases hstop : s.stopped with
  | true =>
    obtain ⟨hstop', hnone⟩ := stopped_step hstop (h.stopped hstop)
    constructor
    · intro _
      exact hnone
    · rw [hstop']
      intro hfalse
      cases hfalse
  | false =>
    have hrun : ¬ s.stopped = true := by
      rw [hstop]
      exact Bool.false_ne_true
    have htracked := h.running hstop
    cases op with
    | addNetworkEndpoint networkId =>
      simp only [State.step]
      split
      · exact h
      · rename_i hadding
        have hadding : s.adding = none := by simpa using hadding
        exact inv_of_tracked (htracked.beginAdd hstop hadding (horderly hstop hadding))
    | addEndpoint a recorded =>
      simp only [State.step]
      split
      · exact h
      · rename_i hadding
        exact inv_of_tracked (htracked.endAdd hstop hadding a recorded)
    | failureTimerFired attempt => exact inv_of_tracked (htracked.failureTimerFired hstop attempt)
    | removeNetwork networkId =>
      obtain ⟨hwait, hadding⟩ := horderly hstop
      exact inv_of_tracked (htracked.removeNetwork hstop hwait hadding)
    | serviceDisconnect =>
      rw [State.step, if_neg hrun]
      refine inv_of_tracked ⟨htracked.of_subperm ?_ ?_ (fun _ => id) rfl, hstop⟩
      · exact (sublist_append_right _ _).subperm
      · exact fun x hx => mem_append_right _ hx
    | createFailed => exact inv_of_tracked ⟨htracked.createFailed, hstop⟩
    | failureTimerDue =>
      exact inv_of_tracked ⟨⟨htracked.unique, htracked.gone, htracked.ids, htracked.fresh⟩, hstop⟩
    | stop => exact ⟨fun _ => rfl, fun hfalse => by cases hfalse⟩

theorem inv_initial : State.Inv {} := by
  refine inv_of_tracked ⟨⟨nodup_nil, ?_, ?_, ?_⟩, rfl⟩
  · intro e he
    cases he
  · intro x hx
    cases hx
  · intro x hx
    cases hx

end State

/-- A run in which a network is added and removed only while no endpoint of it waits or is being added keeps
one endpoint for a network at most, and none for a network that has been removed. -/
theorem networks_exclusive (ops : List EndpointOp) (hops : Allowed State.step State.Orderly ops {}) :
    Along State.step (fun _ _ s => s.Exclusive) ops {} := by
  have hkeep : ∀ op s, State.Inv s → s.Orderly op → (s.step op).Inv := fun _ _ h horderly => h.step horderly
  apply along_of_step hkeep
  · intro op s hinv horderly
    exact (hkeep op s hinv horderly).exclusive
  · exact State.inv_initial
  · exact hops

/-- An endpoint is added by the timer, removed with its network, and added again with it. -/
theorem networks_exclusive_readded : Along State.step (fun _ _ s => s.Exclusive)
      [.addNetworkEndpoint 1, .addEndpoint { addHcsEndpoint := .other 5 } true, .failureTimerDue,
      .failureTimerFired fun _ => {}, .removeNetwork 1, .addNetworkEndpoint 1, .addEndpoint {} true] {} :=
  networks_exclusive _ (by decide)

/-- A second call for a network whose endpoint waits leads to two endpoints. A network is removed while its
endpoint waits, and the timer adds the endpoint. -/
theorem networks_not_exclusive :
    ¬ Along State.step (fun _ _ s => s.Exclusive)
      [.addNetworkEndpoint 1, .addEndpoint { addHcsEndpoint := .other 5 } true, .addNetworkEndpoint 1,
        .addEndpoint {} true, .failureTimerDue,
        .failureTimerFired fun _ => { addHcsEndpoint := .endpointAlreadyAttached }] {} ∧
    ¬ Along State.step (fun _ _ s => s.Exclusive)
      [.addNetworkEndpoint 1, .addEndpoint { addHcsEndpoint := .other 5 } true, .removeNetwork 1, .failureTimerDue,
        .failureTimerFired fun _ => {}] {} := by
  constructor
  · rintro ⟨_, _, _, _, _, hexclusive, _⟩
    exact absurd hexclusive.unique (by decide)
  · rintro ⟨_, _, _, _, hexclusive, _⟩
    exact absurd (hexclusive.gone ⟨1, 0⟩) (by decide)

end WslPlus.Network.MirroredEndpoints
