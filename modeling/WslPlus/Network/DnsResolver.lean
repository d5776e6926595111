import WslPlus.Lib.Keyed
import WslPlus.Lib.Transition

/-!
# DNS tunnelling on the host

`DnsResolver` starts a query for each request of the guest and keeps the context of the query under the id of the
request until the query completes. An event is signalled while there are no requests; `Stop` cancels the queries and
waits for it.

`m_dnsLock` is held from the beginning to the end of each of the functions, and taken again where a query completes
inside a call of the DNS API, so that a step of the model is a whole call.
-/

namespace WslPlus.Network.DnsResolver

open List

/-- `LX_GNS_DNS_CLIENT_IDENTIFIER` -/
structure ClientIdentifier where
  protocol : UInt32
  dnsClientId : UInt32

/-- `DnsQueryContext`. The address is what a pointer to it denotes; it does not come back. -/
structure Context where
  id : UInt32
  address : Nat
  dnsClientIdentifier : ClientIdentifier

structure Resolver where
  stopped : Bool := false
  currentRequestId : UInt32 := 0
  dnsRequests : List Context := []
  allRequestsFinished : Bool := true
  externalInterfaceConstraint : Bool := false
  externalInterfaceConstraintIndex : UInt32 := 0
  nextAddress : Nat := 0
  /-- The queries that have not completed, by the address that the callback is called with. -/
  queries : List Nat := []
  started : Nat := 0
  dnsResponseQueue : List ClientIdentifier := []
  /-- The calls of `Stop` that wait. -/
  waiting : Nat := 0

/-- What becomes of a response. -/
inductive Handling where
  | copyFails
  | submitFails
  | submitted
  deriving DecidableEq

/-- The results that a query completes with. A failure is counted in a map, for which there may be no memory. -/
inductive Completion where
  | null
  | failure (counted : Bool)
  | response (handling : Handling)

/-- What `DnsQueryRaw` returns; the query may complete inside the call. -/
inductive Started where
  | failed
  | pending (inside : Option Completion)

namespace Completion

/-- `HandleDnsQueryCompletion` is left by an exception. A response is not copied any more once the resolver is
stopped. -/
def throws (completion : Completion) (stopped : Bool) : Bool :=
  match completion with
  | .null => false
  | .failure counted => !counted
  | .response handling => !stopped && handling ≠ .submitted

def isResponse : Completion → Bool
  | .response _ => true
  | _ => false

end Completion

namespace Resolver

def handleDnsQueryCompletion (s : Resolver) (queryContext : Context) (completion : Completion) : Resolver :=
  if completion.throws s.stopped then s
  else
    let requests := Keyed.erase Context.id queryContext.id s.dnsRequests
    { s with
      dnsResponseQueue :=
        if !s.stopped && completion.isResponse then s.dnsResponseQueue ++ [queryContext.dnsClientIdentifier]
        else s.dnsResponseQueue
      dnsRequests := requests
      allRequestsFinished := if requests = [] then true else s.allRequestsFinished }

/-- The callback of a query. A query whose context has been freed is beyond the model, which leaves the resolver as
it is. -/
def complete (s : Resolver) (query : Nat) (completion : Completion) : Resolver :=
  if query ∈ s.queries then
    let s := { s with queries := s.queries.erase query }
    match Keyed.lookup Context.address s.dnsRequests query with
    | none => s
    | some queryContext => s.handleDnsQueryCompletion queryContext completion
  else s

/-- The entry under an id; `emplace` keeps the one that is there. -/
def emplace (s : Resolver) (requestId : UInt32) (client : ClientIdentifier) : Context × Resolver :=
  match Keyed.lookup Context.id s.dnsRequests requestId with
  | some context => (context, s)
  | none =>
    let context : Context := { id := requestId, address := s.nextAddress, dnsClientIdentifier := client }
    (context, { s with dnsRequests := s.dnsRequests ++ [context], nextAddress := s.nextAddress + 1 })

/-- The call of `DnsQueryRaw` and what follows it. -/
def startQuery (s : Resolver) (context : Context) (result : Started) : Resolver :=
  match result with
  | .failed => { s with dnsRequests := Keyed.erase Context.id context.id s.dnsRequests }
  | .pending inside =>
    let s := { s with queries := s.queries ++ [context.address], started := s.started + 1 }
    let s := match inside with
      | none => s
      | some completion => s.complete context.address completion
    { s with allRequestsFinished := false }

def refuses (s : Resolver) : Bool :=
  s.stopped || (s.externalInterfaceConstraint && s.externalInterfaceConstraintIndex == 0)

def processDnsRequest (s : Resolver) (client : ClientIdentifier) (memory : Bool) (result : Started) :
    Resolver :=
  if s.refuses then s
  else
    let requestId := s.currentRequestId
    let s := { s with currentRequestId := s.currentRequestId + 1 }
    if memory then
      let (context, s) := s.emplace requestId client
      s.startQuery context result
    else s

/-- The calls of `DnsCancelQueryRaw`; a query completes inside the call or later. -/
def cancel (s : Resolver) : List Context → List (Option Completion) → Resolver
  | context :: contexts, some completion :: completions =>
    (s.complete context.address completion).cancel contexts completions
  | _ :: contexts, none :: completions => s.cancel contexts completions
  | _, _ => s

/-- `Stop` up to its wait. There may be no memory for the handles. -/
def stop (s : Resolver) (memory : Bool) (completions : List (Option Completion)) : Resolver :=
  let s := { s with stopped := true }
  if memory then
    let s := s.cancel s.dnsRequests completions
    { s with waiting := s.waiting + 1 }
  else s

/-- The wait of a call of `Stop` ends. -/
def wake (s : Resolver) : Resolver :=
  if s.allRequestsFinished then { s with waiting := s.waiting - 1 } else s

def resolveExternalInterfaceConstraintIndex (s : Resolver) (index : UInt32) : Resolver :=
  if s.stopped then s else { s with externalInterfaceConstraintIndex := index }

end Resolver

inductive Op where
  | request (client : ClientIdentifier) (memory : Bool) (result : Started)
  | complete (query : Nat) (completion : Completion)
  | stop (memory : Bool) (completions : List (Option Completion))
  | wake
  | interfaceChange (index : UInt32)

def step : Op → Resolver → Resolver
  | .request client memory result, s => s.processDnsRequest client memory result
  | .complete query completion, s => s.complete query completion
  | .stop memory completions, s => s.stop memory completions
  | .wake, s => s.wake
  | .interfaceChange index, s => s.resolveExternalInterfaceConstraintIndex index

/-- The accounting behind a step: the event and the table agree, a query that has completed has no request any more
and one that has not still has its own, no query is started once the resolver is stopped, and nothing holds up a wait
when all queries have completed. -/
structure Accounted (s : Resolver) (op : Op) (s' : Resolver) : Prop where
  signalled : s'.allRequestsFinished = true ↔ s'.dnsRequests = []
  removed : ∀ query ∈ s.queries, query ∉ s'.queries → ∀ context ∈ s'.dnsRequests, context.address ≠ query
  kept : ∀ query ∈ s'.queries, ∃ context ∈ s'.dnsRequests, context.address = query
  refused : s.stopped = true → s'.started = s.started
  ends : s'.queries = [] → s'.allRequestsFinished = true

/-- What `DnsQueryRaw` may do: a query completes inside the call only if it does not leave the table empty. -/
def Started.Regular (result : Started) (s : Resolver) : Prop :=
  match result with
  | .pending (some completion) => completion.throws s.stopped = false ∧ s.dnsRequests ≠ []
  | _ => True

/-- Where the code does not go wrong: a request gets an id that is not in use, a query does not complete before
`DnsQueryRaw` returns while it is the only one, and the handling of a completion is not left by an exception. -/
def Regular : Op → Resolver → Prop
  | .request _ memory result, s =>
    s.refuses = false → memory = true →
      Keyed.lookup Context.id s.dnsRequests s.currentRequestId = none ∧ result.Regular s
  | .complete query completion, s => query ∈ s.queries → completion.throws s.stopped = false
  | .stop memory completions, s =>
    memory = true → ∀ completion ∈ completions.take s.dnsRequests.length, ∀ c ∈ completion, c.throws true = false
  | .wake, _ => True
  | .interfaceChange _, _ => True

/-- The outstanding queries are those of the requests, in order. -/
structure Inv (s : Resolver) : Prop where
  ids : Keyed.Distinct Context.id s.dnsRequests
  addresses : Keyed.Distinct Context.address s.dnsRequests
  fresh : ∀ context ∈ s.dnsRequests, context.address < s.nextAddress
  outstanding : s.queries = s.dnsRequests.map Context.address
  signalled : s.allRequestsFinished = true ↔ s.dnsRequests = []

theorem Inv.accounted {s s' : Resolver} {op : Op} (h : Inv s')
    (hstart : s.stopped = true → s'.started = s.started) :
    Accounted s op s' := by
  constructor
  · exact h.signalled
  · intro query _ hgone context hctx heq
    apply hgone
    rw [h.outstanding, ← heq]
    exact mem_map_of_mem hctx
  · intro query hquery
    rw [h.outstanding] at hquery
    exact mem_map.mp hquery
  · exact hstart
  · intro hnil
    rw [h.outstanding, map_eq_nil_iff] at hnil
    exact h.signalled.mpr hnil

theorem map_erase {requests : List Context} (hids : Keyed.Distinct Context.id requests)
    (haddr : Keyed.Distinct Context.address requests) {context : Context} (hctx : context ∈ requests) :
    (requests.map Context.address).erase context.address =
      (Keyed.erase Context.id context.id requests).map Context.address := by
  rw [List.Nodup.erase_eq_filter haddr, filter_map, Keyed.erase]
  congr 1
  apply filter_congr
  intro other hother
  have hiff : other.address = context.address ↔ other.id = context.id := by
    constructor
    · intro heq
      rw [inj_on_of_nodup_map haddr hother hctx heq]
    · intro heq
      rw [inj_on_of_nodup_map hids hother hctx heq]
  rw [Bool.eq_iff_iff]
  simp [hiff]

theorem Inv.complete {s : Resolver} (h : Inv s) (query : Nat) {completion : Completion}
    (hthrows : query ∈ s.queries → completion.throws s.stopped = false) :
    Inv (s.complete query completion) ∧ (s.complete query completion).stopped = s.stopped ∧
      (s.complete query completion).started = s.started := by
  unfold Resolver.complete
  split
  case isFalse => exact ⟨h, rfl, rfl⟩
  case isTrue hquery =>
    have hreturns := hthrows hquery
    rw [h.outstanding] at hquery
    obtain ⟨context, hctx, rfl⟩ := mem_map.mp hquery
    have hlookup : Keyed.lookup Context.address s.dnsRequests context.address = some context :=
      Keyed.lookup_of_mem h.addresses hctx
    simp only [hlookup, Resolver.handleDnsQueryCompletion, hreturns, Bool.false_eq_true, if_false]
    refine ⟨⟨Keyed.distinct_erase h.ids, h.addresses.sublist (filter_sublist.map _), ?_, ?_, ?_⟩, trivial, trivial⟩
    · intro other hother
      exact h.fresh other (Keyed.mem_erase.mp hother).1
    · simp only [h.outstanding]
      exact map_erase h.ids h.addresses hctx
    · by_cases hnil : Keyed.erase Context.id context.id s.dnsRequests = []
      · simp [hnil]
      · have hnotAll : s.dnsRequests ≠ [] := ne_nil_of_mem hctx
        simp only [hnil, if_false, iff_false]
        exact fun hset => hnotAll (h.signalled.mp hset)

theorem Inv.cancel {s : Resolver} (h : Inv s) (hstop : s.stopped = true) (contexts : List Context)
    {completions : List (Option Completion)}
    (hthrows : ∀ completion ∈ completions.take contexts.length, ∀ c ∈ completion, c.throws true = false) :
    Inv (s.cancel contexts completions) ∧ (s.cancel contexts completions).stopped = true ∧
      (s.cancel contexts completions).started = s.started := by
  induction contexts generalizing s completions with
  | nil =>
    unfold Resolver.cancel
    exact ⟨h, hstop, rfl⟩
  | cons context contexts ih =>
    cases completions with
    | nil =>
      unfold Resolver.cancel
      exact ⟨h, hstop, rfl⟩
    | cons completion completions =>
      rw [length_cons, take_succ_cons] at hthrows
      obtain ⟨hfirst, hrest⟩ := forall_mem_cons.mp hthrows
      cases completion with
      | none => exact ih h hstop hrest
      | some completion =>
        have hone := hfirst completion rfl
        rw [← hstop] at hone
        obtain ⟨hinv, hstill, hstart⟩ := h.complete context.address fun _ => hone
        rw [Resolver.cancel]
        obtain ⟨hinv', hstill', hstart'⟩ := ih hinv (hstill.trans hstop) hrest
        exact ⟨hinv', hstill', hstart'.trans hstart⟩

theorem queries_complete (s : Resolver) (query : Nat) (completion : Completion) :
    (s.complete query completion).queries = s.queries.erase query := by
  unfold Resolver.complete
  split
  · dsimp only
    split
    · rfl
    · unfold Resolver.handleDnsQueryCompletion
      split <;> rfl
  case isFalse hnot => exact (erase_of_not_mem hnot).symm

theorem Inv.track {s : Resolver} (h : Inv s) (context : Context)
    (hfree : Keyed.lookup Context.id s.dnsRequests context.id = none)
    (haddress : context.address = s.nextAddress) :
    Keyed.Distinct Context.id (s.dnsRequests ++ [context]) ∧
      Keyed.Distinct Context.address (s.dnsRequests ++ [context]) ∧
      (∀ other ∈ s.dnsRequests ++ [context], other.address < s.nextAddress + 1) ∧
      s.queries ++ [context.address] = (s.dnsRequests ++ [context]).map Context.address := by
  refine ⟨Keyed.distinct_concat h.ids (Keyed.lookup_eq_none_iff.mp hfree), Keyed.distinct_concat h.addresses ?_, ?_, ?_⟩
  · intro other hother
    rw [haddress]
    exact Nat.ne_of_lt (h.fresh other hother)
  · intro other hother
    rcases mem_append.mp hother with hold | hlast
    · exact Nat.lt_succ_of_lt (h.fresh other hold)
    · rw [mem_singleton.mp hlast, haddress]
      exact Nat.lt_succ_self _
  · simp [h.outstanding]

theorem Inv.request {s : Resolver} (h : Inv s)
    (hfree : Keyed.lookup Context.id s.dnsRequests s.currentRequestId = none) (client : ClientIdentifier)
    {result : Started} (hres : result.Regular s) {context : Context} {s' : Resolver}
    (hemplace : { s with currentRequestId := s.currentRequestId + 1 }.emplace s.currentRequestId client = (context, s')) :
    Inv (s'.startQuery context result) := by
  have hnew : ∀ other ∈ s.dnsRequests, other.id ≠ s.currentRequestId := Keyed.lookup_eq_none_iff.mp hfree
  unfold Resolver.emplace at hemplace
  rw [hfree] at hemplace
  obtain ⟨rfl, rfl⟩ := Prod.mk.inj hemplace
  obtain ⟨hids, haddr, hfresh, houtstanding⟩ :=
    h.track ⟨s.currentRequestId, s.nextAddress, client⟩ hfree rfl
  match result with
  | .failed =>
    -- the context is taken back, so that the table is the one before
    have herase : Keyed.erase Context.id s.currentRequestId
        (s.dnsRequests ++ [⟨s.currentRequestId, s.nextAddress, client⟩]) = s.dnsRequests := by
      rw [Keyed.erase, filter_append, filter_eq_self.mpr]
      · simp
      · intro other hother
        simpa using hnew other hother
    simp only [Resolver.startQuery, herase]
    exact ⟨h.ids, h.addresses, fun other hother => Nat.lt_succ_of_lt (h.fresh other hother), h.outstanding, h.signalled⟩
  | .pending none =>
    simp only [Resolver.startQuery]
    exact ⟨hids, haddr, hfresh, houtstanding, by simp⟩
  | .pending (some completion) =>
    obtain ⟨hthrows, hothers⟩ := hres
    have hreset : s.allRequestsFinished = false := by
      rw [← Bool.not_eq_true, h.signalled]
      exact hothers
    simp only [Resolver.startQuery]
    have hbefore : Inv { s with
        currentRequestId := s.currentRequestId + 1
        dnsRequests := s.dnsRequests ++ [⟨s.currentRequestId, s.nextAddress, client⟩]
        nextAddress := s.nextAddress + 1
        queries := s.queries ++ [s.nextAddress]
        started := s.started + 1 } :=
      ⟨hids, haddr, hfresh, houtstanding, by simp [hreset]⟩
    have hafter := (hbefore.complete s.nextAddress fun _ => hthrows).1
    refine ⟨hafter.ids, hafter.addresses, hafter.fresh, hafter.outstanding, iff_of_false Bool.false_ne_true ?_⟩
    -- the queries from before are still there, and so are their requests
    intro hnil
    have hnone := hafter.outstanding
    rw [queries_complete, hnil, map_nil, ← length_eq_zero_iff, length_erase_of_mem (by simp)] at hnone
    apply hothers
    have hlen := congrArg List.length h.outstanding
    simp only [length_append, length_singleton, length_map] at hnone hlen
    exact length_eq_zero_iff.mp (by omega)

theorem step_inv (op : Op) (s : Resolver) (h : Inv s) (hreg : Regular op s) : Inv (step op s) := by
  cases op with
  | request client memory result =>
    simp only [step, Resolver.processDnsRequest]
    split
    · exact h
    case isFalse hrefuses =>
      split
      case isFalse => exact ⟨h.ids, h.addresses, h.fresh, h.outstanding, h.signalled⟩
      case isTrue hmemory =>
        obtain ⟨hfree, hres⟩ := hreg (Bool.not_eq_true _ ▸ hrefuses) hmemory
        exact h.request hfree client hres rfl
  | complete query completion => exact (h.complete query hreg).1
  | stop memory completions =>
    have hstop : Inv { s with stopped := true } := ⟨h.ids, h.addresses, h.fresh, h.outstanding, h.signalled⟩
    simp only [step, Resolver.stop]
    split
    case isTrue hmemory =>
      have hcancel := (hstop.cancel rfl s.dnsRequests (hreg hmemory)).1
      exact ⟨hcancel.ids, hcancel.addresses, hcancel.fresh, hcancel.outstanding, hcancel.signalled⟩
    case isFalse => exact hstop
  | wake =>
    simp only [step, Resolver.wake]
    split
    · exact ⟨h.ids, h.addresses, h.fresh, h.outstanding, h.signalled⟩
    · exact h
  | interfaceChange index =>
    simp only [step, Resolver.resolveExternalInterfaceConstraintIndex]
    split
    · exact h
    · exact ⟨h.ids, h.addresses, h.fresh, h.outstanding, h.signalled⟩

theorem started_complete (s : Resolver) (query : Nat) (completion : Completion) :
    (s.complete query completion).started = s.started := by
  unfold Resolver.complete
  split
  · dsimp only
    split
    · rfl
    · unfold Resolver.handleDnsQueryCompletion
      split <;> rfl
  · rfl

theorem started_cancel (contexts : List Context) (completions : List (Option Completion)) (s : Resolver) :
    (s.cancel contexts completions).started = s.started := by
  induction contexts generalizing s completions with
  | nil => simp [Resolver.cancel]
  | cons context contexts ih =>
    cases completions with
    | nil => simp [Resolver.cancel]
    | cons completion completions =>
      cases completion with
      | none =>
        rw [Resolver.cancel]
        exact ih completions s
      | some completion =>
        rw [Resolver.cancel, ih, started_complete]

theorem step_refused (op : Op) (s : Resolver) (h : s.stopped = true) : (step op s).started = s.started := by
  cases op with
  | request client memory result =>
    simp only [step, Resolver.processDnsRequest, Resolver.refuses, h, Bool.true_or, if_true]
  | complete query completion => exact started_complete s query completion
  | stop memory completions =>
    simp only [step, Resolver.stop]
    split
    · exact started_cancel s.dnsRequests completions { s with stopped := true }
    · rfl
  | wake =>
    simp only [step, Resolver.wake]
    split <;> rfl
  | interfaceChange index =>
    simp only [step, Resolver.resolveExternalInterfaceConstraintIndex]
    split <;> rfl

def initial (externalInterfaceConstraint : Bool) (index : UInt32) : Resolver :=
  { externalInterfaceConstraint := externalInterfaceConstraint, externalInterfaceConstraintIndex := index }

theorem inv_initial (externalInterfaceConstraint : Bool) (index : UInt32) :
    Inv (initial externalInterfaceConstraint index) where
  ids := nodup_nil
  addresses := nodup_nil
  fresh := nofun
  outstanding := rfl
  signalled := by simp [initial]

/-- In every run in which no id is used twice at a time, no query completes before `DnsQueryRaw` returns and no
completion is left by an exception, the accounting is exact behind every step. -/
theorem requests_accounted (externalInterfaceConstraint : Bool) (index : UInt32) (ops : List Op)
    (hops : Allowed step Regular ops (initial externalInterfaceConstraint index)) :
    Along step Accounted ops (initial externalInterfaceConstraint index) := by
  apply along_of_step step_inv _ (inv_initial externalInterfaceConstraint index) hops
  intro op s h hregular
  exact (step_inv op s h hregular).accounted fun hstopped => step_refused op s hstopped

/-- A query is started, `Stop` cancels it and waits, and the wait ends. -/
theorem requests_accounted_stop :
    Allowed step Regular [.request ⟨17, 1⟩ true (.pending none), .stop true [some .null], .wake]
      (initial false 0) ∧
      Along step Accounted [.request ⟨17, 1⟩ true (.pending none), .stop true [some .null], .wake]
      (initial false 0) := by
  have hops : Allowed step Regular [.request ⟨17, 1⟩ true (.pending none), .stop true [some .null], .wake]
      (initial false 0) := by
    refine ⟨fun _ _ => ⟨rfl, trivial⟩, fun _ => ?_, trivial, trivial⟩
    intro completion hcompletion c hc
    obtain rfl := mem_singleton.mp (mem_of_mem_take hcompletion)
    cases hc
    rfl
  exact ⟨hops, requests_accounted false 0 _ hops⟩

/-- There is no memory for the copy of a response: the only query has completed, its request stays and the event is not
signalled, so that `Stop` waits for ever. -/
theorem request_not_removed :
    ¬ Along step Accounted [.request ⟨17, 1⟩ true (.pending none), .complete 0 (.response .copyFails), .stop true []]
      (initial false 0) := by
  rintro ⟨-, h, -⟩
  exact absurd (h.ends rfl) (by decide)

end WslPlus.Network.DnsResolver
