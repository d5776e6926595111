import WslPlus.Network.PortTracker

/-!
# When a port is given back

A port that was granted must stay granted until its socket had time to appear. The tracker tells this
by a time-out, which the first list that shows the port removes. A list may be older than the approval
whose time-out it removes: the main loop skips a list in an iteration with a bind call, but one that is
published just after that iteration is looked at in the next.
-/

namespace WslPlus.Network

open List

def seen (mode : NetworkingMode) (allocation : PortAllocation) : List Event → Bool
  | [] => false
  | .listed ports :: older =>
    (portStillActive mode ports allocation && older.contains .began) || seen mode allocation older
  | _ :: older => seen mode allocation older

def EachApproval (allocation : PortAllocation) (P : Nat → List Event → Prop) (log : List Event) : Prop :=
  ∀ later timeout earlier, log = later ++ Event.approved allocation timeout :: earlier → P timeout later

def KeptLongEnough (mode : NetworkingMode) (log : List Event) : Prop :=
  ∀ newer allocation now older, log = newer ++ Event.released allocation now :: older →
    EachApproval allocation (fun timeout later => timeout < now ∨ seen mode allocation later = true) older

def Event.approval : Event → Option PortAllocation
  | .approved allocation _ => some allocation
  | _ => none

def approvedSince (log : List Event) : List PortAllocation :=
  (log.takeWhile (· ≠ .began)).filterMap Event.approval

def Tracker.showsApproved (mode : NetworkingMode) (t : Tracker) : Bool :=
  match t.refresh with
  | some (ports, _) => (approvedSince t.log).any (portStillActive mode ports)
  | none => false

def Fresh (mode : NetworkingMode) : Op → Tracker → Prop
  | .poll, t => t.pc = .polling false → t.showsApproved mode = false
  | _, _ => True

instance (mode : NetworkingMode) : (op : Op) → (t : Tracker) → Decidable (Fresh mode op t)
  | .poll, t => inferInstanceAs (Decidable (t.pc = .polling false → t.showsApproved mode = false))
  | .tick, _ | .opens _, _ | .closes _, _ | .begin, _ | .list, _ | .listFails, _ | .publish, _
  | .readNextRequest _ _, _ | .resolvePortZeroBind _ _, _ | .resume, _ => .isTrue trivial

section History

variable {mode : NetworkingMode} {allocation : PortAllocation} {log older recent : List Event} {e : Event}
variable {P : Nat → List Event → Prop}

theorem seen_cons (h : seen mode allocation older = true) : seen mode allocation (e :: older) = true := by
  cases e with
  | listed ports => simp only [seen, h, Bool.or_true]
  | approved _ _ => exact h
  | began => exact h
  | released _ _ => exact h

variable {ports : ActivePorts}

theorem seen_of_listed (hshow : portStillActive mode ports allocation = true)
    (hlisted : .listed ports ∈ recent) : seen mode allocation (recent ++ Event.began :: older) = true := by
  induction recent with
  | nil => exact absurd hlisted not_mem_nil
  | cons e recent ih =>
    rcases mem_cons.mp hlisted with heq | hmem
    · have hbegan : Event.began ∈ recent ++ Event.began :: older := mem_append_right _ mem_cons_self
      rw [← heq, cons_append, seen, hshow, contains_iff_mem.mpr hbegan]
      rfl
    · exact seen_cons (ih hmem)

theorem EachApproval.cons (h : EachApproval allocation P log)
    (hlater : ∀ timeout later, P timeout later → P timeout (e :: later))
    (hnew : ∀ timeout, e = .approved allocation timeout → P timeout []) :
    EachApproval allocation P (e :: log) := by
  intro later timeout earlier heq
  rcases cons_eq_append_iff.mp heq with ⟨rfl, hhead⟩ | ⟨later', rfl, htail⟩
  · exact hnew timeout (List.cons.inj hhead).1.symm
  · exact hlater timeout later' (h later' timeout earlier htail)

theorem EachApproval.imp {Q : Nat → List Event → Prop} (h : EachApproval allocation P log)
    (himp : ∀ timeout later, P timeout later → Q timeout later) : EachApproval allocation Q log :=
  fun later timeout earlier heq => himp timeout later (h later timeout earlier heq)

theorem KeptLongEnough.cons (h : KeptLongEnough mode log)
    (hnew : ∀ allocation now, e = .released allocation now →
      EachApproval allocation (fun timeout later => timeout < now ∨ seen mode allocation later = true) log) :
    KeptLongEnough mode (e :: log) := by
  intro newer allocation now older heq
  rcases cons_eq_append_iff.mp heq with ⟨rfl, hhead⟩ | ⟨newer', rfl, htail⟩
  · obtain ⟨he, hlog⟩ := List.cons.inj hhead
    rw [hlog]
    exact hnew allocation now he.symm
  · exact h newer' allocation now older htail

def Latest (ports : Option ActivePorts) (log : List Event) : Prop :=
  ∃ recent older, log = recent ++ Event.began :: older ∧ Event.began ∉ recent ∧
    ∀ shown, ports = some shown → .listed shown ∈ recent

theorem Latest.cons {ports : Option ActivePorts} (h : Latest ports log) (he : e ≠ .began) :
    Latest ports (e :: log) := by
  obtain ⟨recent, older, rfl, hbegan, hlisted⟩ := h
  refine ⟨e :: recent, older, rfl, ?_, fun shown hshow => mem_cons_of_mem _ (hlisted shown hshow)⟩
  rw [mem_cons, not_or]
  exact ⟨he.symm, hbegan⟩

theorem Latest.listed (h : Latest none log) : Latest (some ports) (.listed ports :: log) := by
  obtain ⟨recent, older, rfl, hbegan, -⟩ := h
  refine ⟨.listed ports :: recent, older, rfl, ?_, ?_⟩
  · simpa using hbegan
  · rintro shown ⟨rfl⟩
    exact mem_cons_self

theorem Latest.eachApproval_seen (h : Latest (some ports) log)
    (hshow : portStillActive mode ports allocation = true) (hsince : allocation ∉ approvedSince log) :
    EachApproval allocation (fun _ later => seen mode allocation later = true) log := by
  obtain ⟨recent, older, rfl, hbegan, hlisted⟩ := h
  intro later timeout earlier heq
  have hrecent : approvedSince (recent ++ Event.began :: older) = recent.filterMap Event.approval := by
    have hall : ∀ e ∈ recent, (decide (e ≠ .began)) = true := by
      intro e he
      rw [decide_eq_true_eq]
      rintro rfl
      exact hbegan he
    rw [approvedSince, takeWhile_append_of_pos hall]
    simp
  rw [hrecent] at hsince
  rcases append_eq_append_iff.mp heq with ⟨mid, rfl, hmid⟩ | ⟨mid, rfl, hmid⟩
  · cases mid with
    | nil => exact absurd (List.cons.inj hmid).1 (by simp)
    | cons e mid =>
      obtain ⟨rfl, -⟩ := List.cons.inj hmid
      exact seen_of_listed hshow (hlisted ports rfl)
  · cases mid with
    | nil => exact absurd (List.cons.inj hmid).1 (by simp)
    | cons e mid =>
      obtain ⟨rfl, -⟩ := List.cons.inj hmid
      apply absurd _ hsince
      rw [mem_filterMap]
      exact ⟨.approved allocation timeout, mem_append_right _ mem_cons_self, rfl⟩

end History

/-- What the time-outs of the tracked allocations say about the history. -/
structure Tracked (mode : NetworkingMode) (now : Nat) (allocated : AllocatedPorts) (log : List Event) :
    Prop where
  timeouts : ∀ allocation timeout, .approved allocation timeout ∈ log → timeout ≤ now + bindTimeoutSeconds
  waits : ∀ allocation timeout, (allocation, some timeout) ∈ allocated →
    EachApproval allocation (fun timeout' _ => timeout' ≤ timeout) log
  seen : ∀ allocation, (allocation, none) ∈ allocated →
    EachApproval allocation (fun _ later => Network.seen mode allocation later = true) log
  kept : KeptLongEnough mode log

namespace Tracked

variable {mode : NetworkingMode} {now : Nat} {allocated : AllocatedPorts} {log : List Event}

theorem initial : Tracked mode now [] [] := by
  refine ⟨?_, ?_, ?_, ?_⟩
  · intro _ _ h
    exact absurd h not_mem_nil
  · intro _ _ h
    exact absurd h not_mem_nil
  · intro _ h
    exact absurd h not_mem_nil
  · intro newer _ _ _ heq
    simp at heq

theorem tick (h : Tracked mode now allocated log) : Tracked mode (now + 1) allocated log := by
  refine ⟨?_, h.waits, h.seen, h.kept⟩
  intro allocation timeout hmem
  have := h.timeouts allocation timeout hmem
  omega

theorem cons {e : Event} (h : Tracked mode now allocated log) (happroved : e.approval = none)
    (hreleased : ∀ allocation time, e ≠ .released allocation time) : Tracked mode now allocated (e :: log) := by
  have hne : ∀ allocation timeout, e ≠ .approved allocation timeout := by
    rintro allocation timeout rfl
    exact absurd happroved (Option.some_ne_none _)
  refine ⟨?_, ?_, ?_, ?_⟩
  · intro allocation timeout hmem
    rcases mem_cons.mp hmem with heq | hmem
    · exact absurd heq.symm (hne allocation timeout)
    · exact h.timeouts allocation timeout hmem
  · intro allocation timeout hmem
    exact (h.waits allocation timeout hmem).cons (fun _ _ hle => hle) fun _ heq => absurd heq (hne allocation _)
  · intro allocation hmem
    exact (h.seen allocation hmem).cons (fun _ _ => seen_cons) fun _ heq => absurd heq (hne allocation _)
  · exact h.kept.cons fun allocation time heq => absurd heq (hreleased allocation time)

theorem mem_insertOrAssign {allocation allocation' : PortAllocation} {timeout timeout' : Option Nat}
    (hmem : (allocation', timeout') ∈ AllocatedPorts.insertOrAssign allocated allocation timeout) :
    (allocation' = allocation ∧ timeout' = timeout) ∨
      (allocation' ≠ allocation ∧ (allocation', timeout') ∈ allocated) := by
  rw [AllocatedPorts.insertOrAssign] at hmem
  split at hmem
  · obtain ⟨entry, hentry, heq⟩ := mem_map.mp hmem
    split at heq
    · rename_i hkey
      obtain ⟨rfl, rfl⟩ := Prod.mk.inj heq
      exact .inl ⟨hkey, rfl⟩
    · rename_i hkey
      subst heq
      exact .inr ⟨hkey, hentry⟩
  · rename_i hcontains
    rcases mem_append.mp hmem with hentry | hmem
    · refine .inr ⟨?_, hentry⟩
      rintro rfl
      exact hcontains (any_eq_true.mpr ⟨(allocation', timeout'), hentry, decide_eq_true rfl⟩)
    · exact .inl (Prod.mk.inj (mem_singleton.mp hmem))

theorem trackPort (h : Tracked mode now allocated log) (allocation : PortAllocation) :
    Tracked mode now (AllocatedPorts.insertOrAssign allocated allocation (some (now + bindTimeoutSeconds)))
      (.approved allocation (now + bindTimeoutSeconds) :: log) := by
  refine ⟨?_, ?_, ?_, ?_⟩
  · intro allocation' timeout hmem
    rcases mem_cons.mp hmem with heq | hmem
    · obtain ⟨-, rfl⟩ := Event.approved.inj heq
      exact Nat.le_refl _
    · exact h.timeouts allocation' timeout hmem
  · intro allocation' timeout hmem
    rcases mem_insertOrAssign hmem with ⟨rfl, heq⟩ | ⟨hne, hmem⟩
    · obtain rfl := Option.some.inj heq
      intro later timeout' earlier hlog
      have hmem' : .approved allocation' timeout' ∈ later ++ Event.approved allocation' timeout' :: earlier :=
        mem_append_right _ mem_cons_self
      rw [← hlog] at hmem'
      rcases mem_cons.mp hmem' with heq | hmem'
      · exact Nat.le_of_eq (Event.approved.inj heq).2
      · exact h.timeouts allocation' timeout' hmem'
    · apply (h.waits allocation' timeout hmem).cons
      · exact fun _ _ hle => hle
      · intro _ heq
        exact absurd (Event.approved.inj heq).1.symm hne
  · intro allocation' hmem
    rcases mem_insertOrAssign hmem with ⟨-, heq⟩ | ⟨hne, hmem⟩
    · exact absurd heq.symm (Option.some_ne_none _)
    · apply (h.seen allocation' hmem).cons
      · exact fun _ _ => seen_cons
      · intro _ heq
        exact absurd (Event.approved.inj heq).1.symm hne
  · apply h.kept.cons
    rintro _ _ ⟨⟩

variable {allocation : PortAllocation}

theorem release (h : Tracked mode now allocated log) (hover : EachApproval allocation
      (fun timeout later => timeout < now ∨ Network.seen mode allocation later = true) log) :
    Tracked mode now allocated (.released allocation now :: log) := by
  refine ⟨?_, ?_, ?_, ?_⟩
  · intro allocation' timeout hmem
    rcases mem_cons.mp hmem with ⟨⟨⟩⟩ | hmem
    exact h.timeouts allocation' timeout hmem
  · intro allocation' timeout hmem
    apply (h.waits allocation' timeout hmem).cons
    · exact fun _ _ hle => hle
    · rintro _ ⟨⟩
  · intro allocation' hmem
    apply (h.seen allocation' hmem).cons
    · exact fun _ _ => seen_cons
    · rintro _ ⟨⟩
  · apply h.kept.cons
    rintro _ _ ⟨rfl, rfl⟩
    exact hover

variable {ports : ActivePorts} {timestamp : Nat}

theorem mem_onRefresh {timeout : Option Nat}
    (hmem : (allocation, timeout) ∈ (AllocatedPorts.onRefresh mode ports timestamp allocated).1) :
    (timeout = none ∧ portStillActive mode ports allocation = true) ∨ (allocation, timeout) ∈ allocated := by
  induction allocated with
  | nil => exact absurd hmem not_mem_nil
  | cons entry rest ih =>
    obtain ⟨allocation', timeout'⟩ := entry
    simp only [AllocatedPorts.onRefresh] at hmem
    split at hmem
    · rename_i hshow
      rcases mem_cons.mp hmem with heq | hmem
      · obtain ⟨rfl, rfl⟩ := Prod.mk.inj heq
        exact .inl ⟨rfl, hshow⟩
      · exact (ih hmem).imp_right (mem_cons_of_mem _)
    · split at hmem
      · exact (ih hmem).imp_right (mem_cons_of_mem _)
      · rcases mem_cons.mp hmem with heq | hmem
        · exact .inr (heq ▸ mem_cons_self)
        · exact (ih hmem).imp_right (mem_cons_of_mem _)

theorem mem_released (hmem : allocation ∈ (AllocatedPorts.onRefresh mode ports timestamp allocated).2) :
    ∃ timeout, (allocation, timeout) ∈ allocated ∧ ∀ time, timeout = some time → time < timestamp := by
  induction allocated with
  | nil => exact absurd hmem not_mem_nil
  | cons entry rest ih =>
    obtain ⟨allocation', timeout'⟩ := entry
    have hrest (hmem : allocation ∈ (AllocatedPorts.onRefresh mode ports timestamp rest).2) :
        ∃ timeout, (allocation, timeout) ∈ (allocation', timeout') :: rest ∧
          ∀ time, timeout = some time → time < timestamp := by
      obtain ⟨timeout, hentry, hpassed⟩ := ih hmem
      exact ⟨timeout, mem_cons_of_mem _ hentry, hpassed⟩
    simp only [AllocatedPorts.onRefresh] at hmem
    split at hmem
    · exact hrest hmem
    · split at hmem
      · rename_i hpassed
        rcases mem_cons.mp hmem with rfl | hmem
        · refine ⟨timeout', mem_cons_self, ?_⟩
          rintro time rfl
          exact of_decide_eq_true hpassed
        · exact hrest hmem
      · exact hrest hmem

theorem releases {released : List PortAllocation} (h : Tracked mode now allocated log)
    (hover : ∀ allocation ∈ released, EachApproval allocation
      (fun timeout later => timeout < now ∨ Network.seen mode allocation later = true) log) :
    Tracked mode now allocated
      (released.foldl (fun log allocation => .released allocation now :: log) log) := by
  induction released generalizing log with
  | nil => exact h
  | cons allocation released ih =>
    apply ih
    · exact h.release (hover allocation mem_cons_self)
    · intro allocation' hmem
      apply (hover allocation' (mem_cons_of_mem _ hmem)).cons
      · intro timeout later hor
        exact hor.imp_right seen_cons
      · rintro _ ⟨⟩

theorem onRefresh (h : Tracked mode now allocated log)
    (hlatest : Latest (some ports) log) (hle : timestamp ≤ now)
    (hfresh : ∀ allocation ∈ approvedSince log, portStillActive mode ports allocation = false) :
    Tracked mode now (AllocatedPorts.onRefresh mode ports timestamp allocated).1
      ((AllocatedPorts.onRefresh mode ports timestamp allocated).2.foldl
        (fun log allocation => .released allocation now :: log) log) := by
  apply releases
  · refine ⟨h.timeouts, ?_, ?_, h.kept⟩
    · intro allocation timeout hmem
      rcases mem_onRefresh hmem with ⟨heq, -⟩ | hmem
      · exact absurd heq (Option.some_ne_none _)
      · exact h.waits allocation timeout hmem
    · intro allocation hmem
      rcases mem_onRefresh hmem with ⟨-, hshow⟩ | hmem
      · apply hlatest.eachApproval_seen hshow
        intro hsince
        rw [hfresh allocation hsince] at hshow
        exact Bool.false_ne_true hshow
      · exact h.seen allocation hmem
  · intro allocation hmem
    obtain ⟨timeout, hentry, hpassed⟩ := mem_released hmem
    cases timeout with
    | none =>
      refine (h.seen allocation hentry).imp ?_
      exact fun _ _ => .inr
    | some time =>
      refine (h.waits allocation time hentry).imp ?_
      intro timeout _ hwait
      have := hpassed time rfl
      exact .inl (by omega)

end Tracked

/-- What the two threads hand over. -/
structure Sound (mode : NetworkingMode) (t : Tracker) : Prop where
  tracked : Tracked mode t.now t.allocatedPorts t.log
  listing : ∀ remaining ports, t.refresher = .listing remaining ports → Latest none t.log
  listed : ∀ ports timestamp, t.refresher = .listed ports timestamp →
    Latest (some ports) t.log ∧ timestamp ≤ t.now
  promised : ∀ ports timestamp, t.refresh = some (ports, timestamp) →
    t.refresher = .waiting ∧ Latest (some ports) t.log ∧ timestamp ≤ t.now
  taken : t.refreshResult = true → t.refresher = .waiting ∧ t.refresh = none

namespace Sound

variable {mode : NetworkingMode} {t : Tracker}

theorem start (now : Nat) (sockets : List Socket) : Sound mode (Tracker.start now sockets) := by
  refine ⟨Tracked.initial, ?_, ?_, ?_, ?_⟩
  · rintro _ _ ⟨⟩
  · rintro _ _ ⟨⟩
  · rintro _ _ ⟨⟩
  · rintro ⟨⟩

section

variable (h : Sound mode t)
include h

theorem frame (pc : Pc) (sockets : List Socket) :
    Sound mode { t with pc := pc, sockets := sockets } :=
  ⟨h.tracked, h.listing, h.listed, h.promised, h.taken⟩

theorem tick : Sound mode { t with now := t.now + 1 } := by
  refine ⟨h.tracked.tick, h.listing, ?_, ?_, h.taken⟩
  · intro ports timestamp hlisted
    obtain ⟨hlatest, hle⟩ := h.listed ports timestamp hlisted
    exact ⟨hlatest, Nat.le_succ_of_le hle⟩
  · intro ports timestamp hpromised
    obtain ⟨hwait, hlatest, hle⟩ := h.promised ports timestamp hpromised
    exact ⟨hwait, hlatest, Nat.le_succ_of_le hle⟩

theorem working (hrefresher : t.refresher ≠ .waiting) :
    t.refresh = none ∧ t.refreshResult = false := by
  constructor
  · rw [Option.eq_none_iff_forall_ne_some]
    rintro ⟨ports, timestamp⟩ heq
    exact hrefresher (h.promised ports timestamp heq).1
  · rw [← Bool.not_eq_true]
    intro htaken
    exact hrefresher (h.taken htaken).1

theorem refreshes {refresher : Refresher} {log : List Event} (hrefresher : t.refresher ≠ .waiting)
    (htracked : Tracked mode t.now t.allocatedPorts log)
    (hlisting : ∀ remaining ports, refresher = .listing remaining ports → Latest none log)
    (hlisted : ∀ ports timestamp, refresher = .listed ports timestamp →
      Latest (some ports) log ∧
    timestamp ≤ t.now) : Sound mode { t with refresher := refresher, log := log } := by
  obtain ⟨hrefresh, hres⟩ := h.working hrefresher
  refine ⟨htracked, hlisting, hlisted, ?_, ?_⟩
  · intro ports timestamp heq
    exact absurd (hrefresh.symm.trans heq).symm (Option.some_ne_none _)
  · intro heq
    exact absurd (hres.symm.trans heq) Bool.false_ne_true

theorem begin (hidle : t.refresher = .idle) :
    Sound mode { t with refresher := .listing queries {}, log := .began :: t.log } := by
  apply h.refreshes
  · rw [hidle]
    rintro ⟨⟩
  · apply h.tracked.cons rfl
    rintro _ _ ⟨⟩
  · intro _ _ _
    refine ⟨[], t.log, rfl, not_mem_nil, ?_⟩
    rintro _ ⟨⟩
  · rintro _ _ ⟨⟩

theorem list : Sound mode t.list := by
  rw [Tracker.list]
  split
  · rename_i query remaining ports hlisting
    apply h.refreshes
    · rw [hlisting]
      rintro ⟨⟩
    · exact h.tracked
    · intro _ _ _
      exact h.listing _ _ hlisting
    · rintro _ _ ⟨⟩
  · rename_i ports hlisting
    apply h.refreshes
    · rw [hlisting]
      rintro ⟨⟩
    · apply h.tracked.cons rfl
      rintro _ _ ⟨⟩
    · rintro _ _ ⟨⟩
    · rintro _ _ ⟨rfl, rfl⟩
      exact ⟨(h.listing _ _ hlisting).listed, Nat.le_refl _⟩
  · exact h

theorem listFails {remaining : List Query} {ports : ActivePorts}
    (hlisting : t.refresher = .listing remaining ports) : Sound mode { t with refresher := .idle } := by
  apply h.refreshes
  · rw [hlisting]
    rintro ⟨⟩
  · exact h.tracked
  · rintro _ _ ⟨⟩
  · rintro _ _ ⟨⟩

theorem publish : Sound mode t.publish := by
  rw [Tracker.publish]
  split
  · rename_i ports timestamp hlisted
    refine ⟨h.tracked, ?_, ?_, ?_, ?_⟩
    · rintro _ _ ⟨⟩
    · rintro _ _ ⟨⟩
    · rintro _ _ ⟨rfl, rfl⟩
      exact ⟨rfl, h.listed _ _ hlisted⟩
    · intro htaken
      exact absurd (hlisted.symm.trans (h.taken htaken).1) (by rintro ⟨⟩)
  · exact h

theorem trackPort (allocation : PortAllocation) : Sound mode (t.trackPort allocation) := by
  have hne : Event.approved allocation (t.now + bindTimeoutSeconds) ≠ .began := by rintro ⟨⟩
  refine ⟨h.tracked.trackPort allocation, ?_, ?_, ?_, h.taken⟩
  · intro remaining ports hlisting
    exact (h.listing remaining ports hlisting).cons hne
  · intro ports timestamp hlisted
    obtain ⟨hlatest, hle⟩ := h.listed ports timestamp hlisted
    exact ⟨hlatest.cons hne, hle⟩
  · intro ports timestamp hpromised
    obtain ⟨hwait, hlatest, hle⟩ := h.promised ports timestamp hpromised
    exact ⟨hwait, hlatest.cons hne, hle⟩

theorem request (allocation : Option PortAllocation) (answer : Int) :
    Sound mode (t.request allocation answer) := by
  cases allocation with
  | none => exact h
  | some allocation =>
    rw [Tracker.request]
    split
    · exact h.trackPort allocation
    · exact h

theorem take {ports : ActivePorts} {timestamp : Nat} (hrefresh : t.refresh = some (ports, timestamp))
    {allocated : AllocatedPorts} {log : List Event} (htracked : Tracked mode t.now allocated log) :
    Sound mode { t with allocatedPorts := allocated, log := log, refresh := none, future := false,
                        refreshResult := true, pc := .resuming } := by
  have hwait := (h.promised ports timestamp hrefresh).1
  refine ⟨htracked, ?_, ?_, ?_, fun _ => ⟨hwait, rfl⟩⟩
  · intro _ _ hlisting
    exact absurd (hwait.symm.trans hlisting) (by rintro ⟨⟩)
  · intro _ _ hlisted
    exact absurd (hwait.symm.trans hlisted) (by rintro ⟨⟩)
  · rintro _ _ ⟨⟩

theorem poll (bindCall : Bool) (hfresh : bindCall = false → t.showsApproved mode = false) :
    Sound mode (t.poll mode bindCall) := by
  rw [Tracker.poll]
  split
  · rename_i ports timestamp _ hrefresh
    cases bindCall with
    | true => exact h.take hrefresh h.tracked
    | false =>
      obtain ⟨-, hlatest, hle⟩ := h.promised ports timestamp hrefresh
      apply h.take hrefresh
      apply h.tracked.onRefresh hlatest hle
      intro allocation hmem
      have hshows := hfresh rfl
      rw [Tracker.showsApproved, hrefresh, any_eq_false] at hshows
      exact Bool.eq_false_iff.mpr (hshows allocation hmem)
  · exact h.frame _ _

theorem resume : Sound mode t.resume := by
  rw [Tracker.resume]
  split
  · rename_i hres
    have hrefresh := (h.taken hres.1).2
    refine ⟨h.tracked, ?_, ?_, ?_, ?_⟩
    · rintro _ _ ⟨⟩
    · rintro _ _ ⟨⟩
    · intro _ _ heq
      exact absurd (hrefresh.symm.trans heq).symm (Option.some_ne_none _)
    · rintro ⟨⟩
  · exact h.frame _ _

end

theorem step (op : Op) (t : Tracker) (h : Sound mode t) (hfresh : Fresh mode op t) :
    Sound mode (Tracker.step mode op t) := by
  cases op with
  | tick => exact h.tick
  | opens socket => exact h.frame _ _
  | closes socket => exact h.frame _ _
  | begin =>
    rw [Tracker.step]
    split
    · exact h.begin ‹_›
    · exact h
  | list => exact h.list
  | listFails =>
    rw [Tracker.step]
    split
    · exact h.listFails ‹_›
    · exact h
  | publish => exact h.publish
  | readNextRequest bindCall answer =>
    rw [Tracker.step]
    split
    · cases bindCall with
      | none => exact h.frame _ _
      | some call => exact (h.request call.request answer).frame _ _
    · exact h
  | resolvePortZeroBind allocation answer =>
    rw [Tracker.step]
    split
    · exact (h.request allocation answer).frame _ _
    · exact h
  | poll =>
    rw [Tracker.step]
    split
    · rename_i bindCall hpc
      apply h.poll bindCall
      rintro rfl
      exact hfresh hpc
    · exact h
  | resume =>
    rw [Tracker.step]
    split
    · exact h.resume
    · exact h

end Sound

/-- If no list that is looked at shows an allocation that was approved after the list was begun, then
no allocation is released before it was seen or its time-out has passed. -/
theorem kept_long_enough (mode : NetworkingMode) (now : Nat) (sockets : List Socket) (ops : List Op)
    (hfresh : Allowed (Tracker.step mode) (Fresh mode) ops (Tracker.start now sockets)) :
    KeptLongEnough mode (runSteps (Tracker.step mode) ops (Tracker.start now sockets)).log :=
  (inv_runSteps Sound.step (Sound.start now sockets) hfresh).tracked.kept

def webPort : PortAllocation where
  port := 8080
  family := .inet
  protocol := .tcp
  address := {}

def webSocket : Socket where
  port := 8080
  family := .inet
  protocol := .tcp
  source := {}

def listsAll : List Op := [.begin, .list, .list, .list, .list, .list, .publish]

def binds : List Op := [.readNextRequest (some ⟨some webPort, false⟩) 0, .poll, .resume]

def looks : List Op := [.readNextRequest none 0, .poll, .resume]

theorem kept_long_enough_closed : KeptLongEnough .nat (runSteps (Tracker.step .nat)
      (binds ++ [.opens webSocket] ++ listsAll ++ looks ++ [.closes webSocket] ++ listsAll ++ looks)
      (Tracker.start 0 [])).log :=
  kept_long_enough .nat 0 [] _ (by decide)

/-- A list is begun before a second bind call for the port and published after it. It still shows the
first socket and removes the time-out of the second call, whose socket is not bound yet. -/
theorem not_kept_long_enough : ¬ KeptLongEnough .nat (runSteps (Tracker.step .nat)
      (binds ++ [.opens webSocket] ++ [.begin, .list, .list, .list, .list, .list, .closes webSocket]
      ++ binds ++ [.publish] ++ looks ++ listsAll ++ looks) (Tracker.start 0 [])).log := by
  intro h
  have hlog : (runSteps (Tracker.step .nat)
      (binds ++ [Op.opens webSocket] ++ [Op.begin, Op.list, Op.list, Op.list, Op.list, Op.list, Op.closes webSocket]
        ++ binds ++ [Op.publish] ++ looks ++ listsAll ++ looks) (Tracker.start 0 [])).log =
      [.released webPort 0, .listed {}, .began, .approved webPort 60,
        .listed ⟨[webPort], [(8080, .tcp)]⟩, .began, .approved webPort 60] := rfl
  rw [hlog] at h
  have hover := h [] webPort 0 _ rfl [.listed {}, .began] 60 _ rfl
  revert hover
  decide

end WslPlus.Network
