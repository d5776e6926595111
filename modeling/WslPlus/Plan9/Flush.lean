import Mathlib.Data.List.Nodup
import Mathlib.Logic.Relation
import WslPlus.Lib.Transition
import WslPlus.Plan9.Handler

/-!
# Requests in progress and their flushes

The receive loop of `Run` puts every message into the list of requests before it takes one
of the places of the semaphore, and the request is removed when the closure of its task is
destroyed, which is after its response was sent. A `Tflush` searches the list once and then
waits until the request that it has found is removed. Each step is one critical section or
one stretch of code of a request; the scheduler may take them in any order.
-/

namespace WslPlus.Plan9

open List

/-- How far a request has got. Only a `Tflush` waits, for a request or for none. -/
inductive Phase where
  | received
  | started
  | waiting (request : Option Nat)
  | answered
deriving DecidableEq

/-- A request in the list, with the number of its arrival. Of a `Tflush`, `target` is the
request that was in flight under its old tag when it arrived. -/
structure Tracked where
  id : Nat
  info : RequestInfo
  oldTag : Option UInt16
  phase : Phase
  target : Option Nat
deriving DecidableEq

def Tracked.early (r : Tracked) : Bool := r.phase = .received ∨ r.phase = .started

structure Sent where
  id : Nat
  tag : UInt16
  target : Option Nat
deriving DecidableEq

/-- A connection that stays up. The list is in the order of arrival; `flushed` are the
requests that a `Tflush` has arrived for. -/
structure Connection where
  requests : List Tracked
  next : Nat
  sent : List Sent
  flushed : List Nat

namespace Connection

def initial : Connection := ⟨[], 0, [], []⟩

/-- `maximumMessages` of `Run`. -/
def maximumMessages : Nat := 32

def inFlight (tag : UInt16) (requests : List Tracked) : Option Nat :=
  (requests.find? fun r => r.info.tag = tag ∧ r.phase ≠ .answered).map Tracked.id

def update (s : Connection) (id : Nat) (g : Tracked → Tracked) : Connection :=
  { s with requests := s.requests.map fun r => if r.id = id then g r else r }

def setPhase (s : Connection) (id : Nat) (phase : Phase) : Connection :=
  s.update id fun r => { r with phase := phase }

def ready (s : Connection) (r : Tracked) : Bool :=
  match r.phase with
  | .received => false
  | .started => r.oldTag.isNone
  | .waiting none => true
  | .waiting (some w) => s.requests.all fun q => q.id != w
  | .answered => false

inductive Op where
  | receive (tag : UInt16) (oldTag : Option UInt16)
  | launch (id : Nat)
  | search (id : Nat)
  | answer (id : Nat)
  | finish (id : Nat)

def targetOf (s : Connection) (tag : UInt16) (oldTag : Option UInt16) : Option Nat :=
  oldTag.bind fun t => inFlight t (s.requests ++ [⟨s.next, ⟨tag, false⟩, oldTag, .received, none⟩])

/-- The constructor of `RequestTracker`. -/
def arrive (s : Connection) (tag : UInt16) (oldTag : Option UInt16) : Connection :=
  { s with
    requests := s.requests ++ [⟨s.next, ⟨tag, false⟩, oldTag, .received, s.targetOf tag oldTag⟩]
    next := s.next + 1
    flushed := s.flushed ++ (s.targetOf tag oldTag).toList }

def receive (s : Connection) (tag : UInt16) (oldTag : Option UInt16) : Connection :=
  if s.requests.any fun r => r.phase = .received then s else s.arrive tag oldTag

def launch (s : Connection) (r : Tracked) : Connection :=
  if r.phase = .received ∧ (s.requests.filter fun q => q.phase ≠ .received).length < maximumMessages then
    s.setPhase r.id .started
  else s

def mark (s : Connection) (id : Nat) : Connection :=
  s.update id fun q => { q with info := { q.info with cancelled := true } }

/-- The search of `HandleFlush`, which marks the request that it finds. -/
def search (s : Connection) (r : Tracked) : Connection :=
  match r.phase, r.oldTag with
  | .started, some t =>
    match s.requests.find? fun q => q.info.tag = t ∧ q.info.cancelled = false with
    | none => s.setPhase r.id (.waiting none)
    | some q => (s.mark q.id).setPhase r.id (.waiting (some q.id))
  | _, _ => s

def answer (s : Connection) (r : Tracked) : Connection :=
  if s.ready r then
    { s.setPhase r.id .answered with sent := s.sent ++ [⟨r.id, r.info.tag, r.target⟩] }
  else s

def finish (s : Connection) (r : Tracked) : Connection :=
  if r.phase = .answered then { s with requests := s.requests.filter fun q => q.id ≠ r.id } else s

def onRequest (s : Connection) (id : Nat) (g : Tracked → Connection) : Connection :=
  match s.requests.find? fun r => r.id = id with
  | some r => g r
  | none => s

def step : Op → Connection → Connection
  | .receive tag oldTag, s => s.receive tag oldTag
  | .launch id, s => s.onRequest id s.launch
  | .search id, s => s.onRequest id s.search
  | .answer id, s => s.onRequest id s.answer
  | .finish id, s => s.onRequest id s.finish

section Effects

variable {s s' : Connection} {op : Op}

/-- What a step does if it does anything. -/
inductive Effect (s : Connection) : Op → Connection → Prop where
  | arrived (tag : UInt16) (oldTag : Option UInt16) (hidle : ∀ r ∈ s.requests, r.phase ≠ .received) :
      Effect s (.receive tag oldTag) (s.arrive tag oldTag)
  | launched (r : Tracked) (hr : r ∈ s.requests) (hphase : r.phase = .received) :
      Effect s (.launch r.id) (s.setPhase r.id .started)
  | missed (r : Tracked) (t : UInt16) (hr : r ∈ s.requests) (hphase : r.phase = .started)
      (holdTag : r.oldTag = some t)
      (hnone : ∀ q ∈ s.requests, q.info.tag = t → q.info.cancelled = true) :
      Effect s (.search r.id) (s.setPhase r.id (.waiting none))
  | found (r q : Tracked) (t : UInt16) (hr : r ∈ s.requests) (hphase : r.phase = .started)
      (holdTag : r.oldTag = some t) (hq : q ∈ s.requests) (htag : q.info.tag = t)
      (hcancelled : q.info.cancelled = false) :
      Effect s (.search r.id) ((s.mark q.id).setPhase r.id (.waiting (some q.id)))
  | answered (r : Tracked) (hr : r ∈ s.requests) (hready : s.ready r = true) :
      Effect s (.answer r.id)
        { s.setPhase r.id .answered with sent := s.sent ++ [⟨r.id, r.info.tag, r.target⟩] }
  | finished (r : Tracked) (hr : r ∈ s.requests) (hphase : r.phase = .answered) :
      Effect s (.finish r.id) { s with requests := s.requests.filter fun q => q.id ≠ r.id }

theorem onRequest_cases {id : Nat} {g : Tracked → Connection} {P : Connection → Prop} (hs : P s)
    (hg : ∀ r ∈ s.requests, r.id = id → P (g r)) : P (s.onRequest id g) := by
  rw [onRequest]
  cases hfind : s.requests.find? fun r => r.id = id with
  | none => exact hs
  | some r =>
    have hid := find?_some hfind
    exact hg r (mem_of_find?_eq_some hfind) (by simpa using hid)

theorem search_cases (r : Tracked) (hr : r ∈ s.requests) :
    s.search r = s ∨ Effect s (.search r.id) (s.search r) := by
  rw [search]
  split
  · rename_i t hphase holdTag
    split
    · rename_i hfind
      refine .inr (.missed r t hr hphase holdTag ?_)
      intro q hq htag
      have hnot := find?_eq_none.mp hfind q hq
      simpa [htag] using hnot
    · rename_i q hfind
      have hq := find?_some hfind
      simp only [decide_eq_true_eq] at hq
      exact .inr (.found r q t hr hphase holdTag (mem_of_find?_eq_some hfind) hq.1 hq.2)
  · exact .inl rfl

theorem step_effect (op : Op) (s : Connection) : step op s = s ∨ Effect s op (step op s) := by
  cases op with
  | receive tag oldTag =>
    simp only [step, receive]
    split
    · exact .inl rfl
    · rename_i hany
      refine .inr (.arrived tag oldTag ?_)
      intro r hr hphase
      refine hany (any_eq_true.mpr ⟨r, hr, ?_⟩)
      simpa using hphase
  | launch id =>
    refine onRequest_cases (P := fun s' => s' = s ∨ Effect s (.launch id) s') (.inl rfl) ?_
    rintro r hr rfl
    rw [launch]
    split
    · rename_i hcond
      exact .inr (.launched r hr hcond.1)
    · exact .inl rfl
  | search id =>
    refine onRequest_cases (P := fun s' => s' = s ∨ Effect s (.search id) s') (.inl rfl) ?_
    rintro r hr rfl
    exact search_cases r hr
  | answer id =>
    refine onRequest_cases (P := fun s' => s' = s ∨ Effect s (.answer id) s') (.inl rfl) ?_
    rintro r hr rfl
    rw [answer]
    split
    · rename_i hready
      exact .inr (.answered r hr hready)
    · exact .inl rfl
  | finish id =>
    refine onRequest_cases (P := fun s' => s' = s ∨ Effect s (.finish id) s') (.inl rfl) ?_
    rintro r hr rfl
    rw [finish]
    split
    · rename_i hphase
      exact .inr (.finished r hr hphase)
    · exact .inl rfl

end Effects

section Sound

variable {s : Connection}

def ids (s : Connection) : List Nat := s.requests.map Tracked.id

def sentIds (s : Connection) : List Nat := s.sent.map Sent.id

/-- Requests are in the order of arrival, each is answered once, and only what was answered is
removed. -/
structure Sound (s : Connection) : Prop where
  sorted : s.ids.Pairwise (· < ·)
  fresh : ∀ i ∈ s.ids, i < s.next
  answered : ∀ r ∈ s.requests, r.id ∈ s.sentIds ↔ r.phase = .answered
  sentFresh : ∀ i ∈ s.sentIds, i < s.next
  once : s.sentIds.Nodup
  gone : ∀ i, i < s.next → i ∉ s.ids → i ∈ s.sentIds
  waits : ∀ r ∈ s.requests, ∀ w, r.phase = .waiting (some w) → w < s.next

variable {r : Tracked}

theorem mem_ids (h : r ∈ s.requests) : r.id ∈ s.ids := mem_map_of_mem h

theorem Sound.unique (h : s.Sound) {p q : Tracked} (hp : p ∈ s.requests) (hq : q ∈ s.requests)
    (hid : p.id = q.id) : p = q := by
  have hnodup : (s.requests.map Tracked.id).Nodup := List.Pairwise.imp Nat.ne_of_lt h.sorted
  exact inj_on_of_nodup_map hnodup hp hq hid

variable {q : Tracked}

theorem mem_update {id : Nat} {g : Tracked → Tracked} :
    q ∈ (s.update id g).requests ↔ ∃ p ∈ s.requests, (if p.id = id then g p else p) = q := mem_map

theorem ids_update {id : Nat} {g : Tracked → Tracked} (hg : ∀ r, (g r).id = r.id) :
    (s.update id g).ids = s.ids := by
  rw [ids, update, map_map]
  refine map_congr_left ?_
  intro r _
  simp only [Function.comp]
  split
  · exact hg r
  · rfl

theorem mem_setPhase (h : s.Sound) (hr : r ∈ s.requests) {phase : Phase}
    (hq : q ∈ (s.setPhase r.id phase).requests) :
    q = { r with phase := phase } ∨ q ∈ s.requests ∧ q.id ≠ r.id := by
  obtain ⟨p, hp, rfl⟩ := mem_update.mp hq
  split
  · rename_i hid
    rw [h.unique hp hr hid]
    exact .inl rfl
  · rename_i hid
    exact .inr ⟨hp, hid⟩

theorem mem_mark (h : s.Sound) (hr : r ∈ s.requests) (hq : q ∈ (s.mark r.id).requests) :
    q = { r with info := { r.info with cancelled := true } } ∨ q ∈ s.requests ∧ q.id ≠ r.id := by
  obtain ⟨p, hp, rfl⟩ := mem_update.mp hq
  split
  · rename_i hid
    rw [h.unique hp hr hid]
    exact .inl rfl
  · rename_i hid
    exact .inr ⟨hp, hid⟩

theorem Sound.setPhase (h : s.Sound) (hr : r ∈ s.requests) (hold : r.phase ≠ .answered)
    {phase : Phase} (hnew : phase ≠ .answered) (hwaits : ∀ w, phase = .waiting (some w) → w < s.next) :
    (s.setPhase r.id phase).Sound := by
  have hids : (s.setPhase r.id phase).ids = s.ids := ids_update fun _ => rfl
  refine ⟨?_, ?_, ?_, h.sentFresh, h.once, ?_, ?_⟩
  · rw [hids]
    exact h.sorted
  · rw [hids]
    exact h.fresh
  · intro q hq
    rcases mem_setPhase h hr hq with rfl | ⟨hq, -⟩
    · refine iff_of_false ?_ hnew
      intro hsent
      exact hold ((h.answered r hr).mp hsent)
    · exact h.answered q hq
  · rw [hids]
    exact h.gone
  · intro q hq w hw
    rcases mem_setPhase h hr hq with rfl | ⟨hq, -⟩
    · exact hwaits w hw
    · exact h.waits q hq w hw

theorem Sound.mark (h : s.Sound) (hr : r ∈ s.requests) : (s.mark r.id).Sound := by
  have hids : (s.mark r.id).ids = s.ids := ids_update fun _ => rfl
  refine ⟨?_, ?_, ?_, h.sentFresh, h.once, ?_, ?_⟩
  · rw [hids]
    exact h.sorted
  · rw [hids]
    exact h.fresh
  · intro q hq
    rcases mem_mark h hr hq with rfl | ⟨hq, -⟩
    · exact h.answered r hr
    · exact h.answered q hq
  · rw [hids]
    exact h.gone
  · intro q hq w hw
    rcases mem_mark h hr hq with rfl | ⟨hq, -⟩
    · exact h.waits r hr w hw
    · exact h.waits q hq w hw

theorem Sound.arrive (h : s.Sound) (tag : UInt16) (oldTag : Option UInt16) : (s.arrive tag oldTag).Sound := by
  have hids : (s.arrive tag oldTag).ids = s.ids ++ [s.next] := by
    simp only [ids, Connection.arrive, map_append, map_singleton]
  refine ⟨?_, ?_, ?_, ?_, h.once, ?_, ?_⟩
  · rw [hids]
    refine pairwise_append.mpr ⟨h.sorted, pairwise_singleton _ _, ?_⟩
    intro i hi j hj
    rw [mem_singleton.mp hj]
    exact h.fresh i hi
  · intro i hi
    rw [hids] at hi
    rcases mem_append.mp hi with hi | hi
    · exact Nat.lt_succ_of_lt (h.fresh i hi)
    · rw [mem_singleton.mp hi]
      exact Nat.lt_succ_self _
  · intro q hq
    rcases mem_append.mp hq with hq | hq
    · exact h.answered q hq
    · rw [mem_singleton.mp hq]
      refine iff_of_false ?_ nofun
      intro hsent
      exact Nat.lt_irrefl _ (h.sentFresh _ hsent)
  · intro i hi
    exact Nat.lt_succ_of_lt (h.sentFresh i hi)
  · intro i hi hnot
    rw [hids, mem_append, mem_singleton, not_or] at hnot
    have hlt : i < s.next + 1 := hi
    exact h.gone i (by omega) hnot.1
  · intro q hq w hw
    rcases mem_append.mp hq with hq | hq
    · exact Nat.lt_succ_of_lt (h.waits q hq w hw)
    · rw [mem_singleton.mp hq] at hw
      cases hw

theorem ready_phase (h : s.ready r = true) : r.phase ≠ .answered := by
  intro hphase
  rw [ready, hphase] at h
  cases h

theorem Sound.answer (h : s.Sound) (hr : r ∈ s.requests) (hready : s.ready r = true) :
    Sound { s.setPhase r.id .answered with sent := s.sent ++ [⟨r.id, r.info.tag, r.target⟩] } := by
  have hids : (s.setPhase r.id .answered).ids = s.ids := ids_update fun _ => rfl
  have hnot : r.id ∉ s.sentIds := fun hsent => ready_phase hready ((h.answered r hr).mp hsent)
  have hsent : sentIds { s.setPhase r.id .answered with sent := s.sent ++ [⟨r.id, r.info.tag, r.target⟩] } =
      s.sentIds ++ [r.id] := by
    simp only [sentIds, map_append, map_singleton]
  refine ⟨?_, ?_, ?_, ?_, ?_, ?_, ?_⟩
  · exact hids ▸ h.sorted
  · exact hids ▸ h.fresh
  · intro q hq
    rw [hsent, mem_append, mem_singleton]
    rcases mem_setPhase h hr hq with rfl | ⟨hq, hid⟩
    · exact iff_of_true (.inr rfl) rfl
    · rw [← h.answered q hq]
      exact ⟨fun h => h.resolve_right hid, .inl⟩
  · intro i hi
    rw [hsent, mem_append, mem_singleton] at hi
    rcases hi with hi | rfl
    · exact h.sentFresh i hi
    · exact h.fresh _ (mem_ids hr)
  · rw [hsent]
    refine nodup_append.mpr ⟨h.once, nodup_singleton _, ?_⟩
    intro i hi j hj
    rw [mem_singleton.mp hj]
    intro heq
    exact hnot (heq ▸ hi)
  · intro i hi hgone
    rw [hsent]
    have hgone' : i ∉ s.ids := hids ▸ hgone
    exact mem_append_left _ (h.gone i hi hgone')
  · intro q hq w hw
    rcases mem_setPhase h hr hq with rfl | ⟨hq, -⟩
    · cases hw
    · exact h.waits q hq w hw

theorem Sound.finish (h : s.Sound) (hr : r ∈ s.requests) (hphase : r.phase = .answered) :
    Sound { s with requests := s.requests.filter fun q => q.id ≠ r.id } := by
  have hsublist : (s.requests.filter fun q => q.id ≠ r.id).Sublist s.requests := filter_sublist
  refine ⟨?_, ?_, ?_, h.sentFresh, h.once, ?_, ?_⟩
  · exact List.Pairwise.sublist (hsublist.map _) h.sorted
  · intro i hi
    exact h.fresh i ((hsublist.map _).subset hi)
  · intro q hq
    exact h.answered q (hsublist.subset hq)
  · intro i hi hgone
    by_cases hid : i = r.id
    · rw [hid]
      exact (h.answered r hr).mpr hphase
    · refine h.gone i hi fun hmem => hgone ?_
      obtain ⟨q, hq, rfl⟩ := mem_map.mp hmem
      refine mem_map_of_mem (mem_filter.mpr ⟨hq, ?_⟩)
      simpa using hid
  · intro q hq w hw
    exact h.waits q (hsublist.subset hq) w hw

theorem Sound.effect (h : s.Sound) {op : Op} {s' : Connection} (he : Effect s op s') : s'.Sound := by
  cases he with
  | arrived tag oldTag hidle => exact h.arrive tag oldTag
  | launched r hr hphase => exact h.setPhase hr (by rw [hphase]; nofun) nofun nofun
  | missed r t hr hphase holdTag hnone => exact h.setPhase hr (by rw [hphase]; nofun) nofun nofun
  | found r q t hr hphase holdTag hq htag hcancel =>
    have hmark := h.mark hq
    obtain ⟨r', hr', hid, hphase'⟩ : ∃ r' ∈ (s.mark q.id).requests, r'.id = r.id ∧ r'.phase = .started := by
      refine ⟨_, mem_update.mpr ⟨r, hr, rfl⟩, ?_⟩
      split
      · exact ⟨rfl, hphase⟩
      · exact ⟨rfl, hphase⟩
    rw [← hid]
    refine hmark.setPhase hr' (by rw [hphase']; nofun) nofun ?_
    intro w hw
    cases hw
    exact h.fresh _ (mem_ids hq)
  | answered r hr hready => exact h.answer hr hready
  | finished r hr hphase => exact h.finish hr hphase

end Sound

section Kept

variable {s s' : Connection} {op : Op}

/-- A request before and after a step. -/
structure Becomes (p q : Tracked) : Prop where
  id : q.id = p.id
  tag : q.info.tag = p.info.tag
  oldTag : q.oldTag = p.oldTag
  target : q.target = p.target
  early : q.early = true → p.early = true
  received : q.phase = .received → p.phase = .received
  answered : p.phase = .answered → q.phase = .answered

theorem Becomes.refl (p : Tracked) : Becomes p p := ⟨rfl, rfl, rfl, rfl, fun h => h, fun h => h, fun h => h⟩

theorem Becomes.trans {p q r : Tracked} (hpq : Becomes p q) (hqr : Becomes q r) : Becomes p r where
  id := hqr.id.trans hpq.id
  tag := hqr.tag.trans hpq.tag
  oldTag := hqr.oldTag.trans hpq.oldTag
  target := hqr.target.trans hpq.target
  early h := hpq.early (hqr.early h)
  received h := hpq.received (hqr.received h)
  answered h := hqr.answered (hpq.answered h)

theorem becomes_marked (p : Tracked) (id : Nat) :
    Becomes p (if p.id = id then { p with info := { p.info with cancelled := true } } else p) := by
  split
  · exact ⟨rfl, rfl, rfl, rfl, fun h => h, fun h => h, fun h => h⟩
  · exact .refl p

variable {p : Tracked} {phase : Phase}

theorem becomes_phased {id : Nat} (hold : p.id = id → p.phase ≠ .answered)
    (hnew : phase ≠ .received) (hearly : p.id = id → phase = .started → p.early = true) :
    Becomes p (if p.id = id then { p with phase := phase } else p) := by
  split
  · rename_i hid
    refine ⟨rfl, rfl, rfl, rfl, fun h => hearly hid ?_, fun h => absurd h hnew, fun h => absurd h (hold hid)⟩
    simpa [Tracked.early, hnew] using h
  · exact .refl p

theorem becomes_found (h : s.Sound) {r p : Tracked} (hr : r ∈ s.requests) (hphase : r.phase = .started)
    (hp : p ∈ s.requests) (found : Nat) {q : Tracked}
    (hq : q = if p.id = found then { p with info := { p.info with cancelled := true } } else p) :
    Becomes p (if q.id = r.id then { q with phase := .waiting (some found) } else q) := by
  have hmarked : Becomes p q := hq ▸ becomes_marked p found
  have hsame : q.phase = p.phase := by
    rw [hq]
    split
    · rfl
    · rfl
  refine hmarked.trans (becomes_phased ?_ nofun nofun)
  intro hid
  have hpr : p = r := h.unique hp hr (hmarked.id.symm.trans hid)
  rw [hsame, hpr, hphase]
  nofun

theorem becomes_setPhase (h : s.Sound) {r : Tracked} (hr : r ∈ s.requests)
    (hold : r.phase ≠ .answered) (hnew : phase ≠ .received)
    (hearly : phase = .started → r.early = true) (hp : p ∈ s.requests) :
    Becomes p (if p.id = r.id then { p with phase := phase } else p) := by
  refine becomes_phased ?_ hnew ?_
  · intro hid
    rw [h.unique hp hr hid]
    exact hold
  · intro hid hphase
    rw [h.unique hp hr hid]
    exact hearly hphase

theorem origin_setPhase (h : s.Sound) {r : Tracked} (hr : r ∈ s.requests)
    (hold : r.phase ≠ .answered) (hnew : phase ≠ .received) (hearly : phase = .started → r.early = true) :
    ∀ q ∈ (s.setPhase r.id phase).requests, ∃ p ∈ s.requests, Becomes p q ∧ q.info = p.info := by
  intro q hq
  obtain ⟨p, hp, rfl⟩ := mem_update.mp hq
  refine ⟨p, hp, becomes_setPhase h hr hold hnew hearly hp, ?_⟩
  split
  · rfl
  · rfl

/-- Every request of the list was there before, but for one that arrives. Only a search for its
tag changes its mark. -/
theorem Effect.origin (h : s.Sound) (he : Effect s op s') (hop : ∀ tag oldTag, op ≠ .receive tag oldTag) :
    ∀ q ∈ s'.requests, ∃ p ∈ s.requests, Becomes p q ∧
      (q.info = p.info ∨ ∃ r ∈ s.requests, r.early = true ∧ r.oldTag = some p.info.tag) := by
  intro q hq
  have hset {r : Tracked} (hr : r ∈ s.requests) (phase : Phase) (hold : r.phase ≠ .answered)
      (hnew : phase ≠ .received) (hearly : phase = .started → r.early = true)
      (hq : q ∈ (s.setPhase r.id phase).requests) : ∃ p ∈ s.requests, Becomes p q ∧
      (q.info = p.info ∨ ∃ r ∈ s.requests, r.early = true ∧ r.oldTag = some p.info.tag) := by
    obtain ⟨p, hp, hbecomes, hinfo⟩ := origin_setPhase h hr hold hnew hearly q hq
    exact ⟨p, hp, hbecomes, .inl hinfo⟩
  cases he with
  | arrived tag oldTag hidle => exact absurd rfl (hop tag oldTag)
  | launched r hr hphase =>
    exact hset hr .started (by rw [hphase]; nofun) nofun (fun _ => by simp [Tracked.early, hphase]) hq
  | missed r t hr hphase holdTag hnone => exact hset hr (.waiting none) (by rw [hphase]; nofun) nofun nofun hq
  | found r found t hr hphase holdTag hfound htag hcancel =>
    obtain ⟨p, hp, rfl⟩ := mem_update.mp hq
    obtain ⟨p₀, hp₀, hmark⟩ := mem_update.mp hp
    refine ⟨p₀, hp₀, becomes_found h hr hphase hp₀ found.id hmark.symm, ?_⟩
    by_cases hid : p₀.id = found.id
    · refine .inr ⟨r, hr, by simp [Tracked.early, hphase], ?_⟩
      rw [h.unique hp₀ hfound hid, htag, holdTag]
    · rw [if_neg hid] at hmark
      refine .inl ?_
      rw [hmark]
      split
      · rfl
      · rfl
  | answered r hr hready => exact hset hr .answered (ready_phase hready) nofun nofun hq
  | finished r hr hphase => exact ⟨q, mem_of_mem_filter hq, .refl q, .inl rfl⟩

theorem Effect.survives (h : s.Sound) (he : Effect s op s') (hp : p ∈ s.requests)
    (hphase : p.phase ≠ .answered) :
    ∃ q ∈ s'.requests, Becomes p q ∧ (q.info = p.info ∨
      ∃ r ∈ s.requests, r.early = true ∧ r.oldTag = some p.info.tag ∧ op = .search r.id ∧
        s' = (s.mark p.id).setPhase r.id (.waiting (some p.id))) := by
  have hset {r : Tracked} (hr : r ∈ s.requests) (phase : Phase) (hold : r.phase ≠ .answered)
      (hnew : phase ≠ .received) (hearly : phase = .started → r.early = true) :
      ∃ q ∈ (s.setPhase r.id phase).requests, Becomes p q ∧ q.info = p.info := by
    refine ⟨_, mem_update.mpr ⟨p, hp, rfl⟩, becomes_setPhase h hr hold hnew hearly hp, ?_⟩
    split
    · rfl
    · rfl
  cases he with
  | arrived tag oldTag hidle => exact ⟨p, mem_append_left _ hp, .refl p, .inl rfl⟩
  | launched r hr hrecv =>
    obtain ⟨q, hq, hbecomes, hinfo⟩ := hset hr .started (by rw [hrecv]; nofun) nofun
      fun _ => by simp [Tracked.early, hrecv]
    exact ⟨q, hq, hbecomes, .inl hinfo⟩
  | missed r t hr hstart holdTag hnone =>
    obtain ⟨q, hq, hbecomes, hinfo⟩ := hset hr (.waiting none) (by rw [hstart]; nofun)
      nofun nofun
    exact ⟨q, hq, hbecomes, .inl hinfo⟩
  | found r found t hr hstart holdTag hfound htag hcancel =>
    have hmem : (if p.id = found.id then { p with info := { p.info with cancelled := true } } else p) ∈
        (s.mark found.id).requests := mem_update.mpr ⟨p, hp, rfl⟩
    refine ⟨_, mem_update.mpr ⟨_, hmem, rfl⟩, becomes_found h hr hstart hp found.id rfl, ?_⟩
    by_cases hid : p.id = found.id
    · have hpf : p = found := h.unique hp hfound hid
      refine .inr ⟨r, hr, by simp [Tracked.early, hstart], ?_, rfl, ?_⟩
      · rw [hpf, htag, holdTag]
      · rw [hid]
    · refine .inl ?_
      rw [if_neg hid]
      split
      · rfl
      · rfl
  | answered r hr hready =>
    obtain ⟨q, hq, hbecomes, hinfo⟩ := hset hr .answered (ready_phase hready) nofun nofun
    exact ⟨q, hq, hbecomes, .inl hinfo⟩
  | finished r hr hans =>
    refine ⟨p, mem_filter.mpr ⟨hp, ?_⟩, .refl p, .inl rfl⟩
    have hne : p.id ≠ r.id := by
      intro hid
      rw [h.unique hp hr hid] at hphase
      exact hphase hans
    simpa using hne

end Kept

end Connection

end WslPlus.Plan9
