import Mathlib.Data.List.Nodup
import WslPlus.Lib.Transition
import WslPlus.Text.Ascii

/-!
# Watching for USB devices

`WatchLoop` lists the devices every few seconds and reports those that were not in the list before. A list
that cannot be made counts as an empty one. The loop has a list from before its first round, if it could be
made.

What `usbipd list` prints, whether it succeeds and what the callback does is open.
-/

namespace WslPlus.Usb

open List Text

abbrev BusId := List Char

def parts (p : Char → Bool) : List Char → List (List Char)
  | [] => [[]]
  | c :: cs =>
    if p c then [] :: parts p cs
    else
      match parts p cs with
      | [] => [[c]]
      | part :: rest => (c :: part) :: rest

def isBusId (word : List Char) : Bool :=
  "USB".toList.isPrefixOf word || "1-".toList.isPrefixOf word || "2-".toList.isPrefixOf word

def busIdOfLine (line : List Char) : Option BusId :=
  match (parts isAsciiSpace line).filter (fun word => !word.isEmpty) with
  | busId :: _ :: _ => if isBusId busId then some busId else none
  | _ => none

/-- `Enumerate` of what the command prints; `none` if it fails. -/
def enumerate (output : Option (List Char)) : Option (List BusId) :=
  output.map fun text => (parts (· = '\n') text).filterMap busIdOfLine

inductive Answer where
  | yes
  | no
  | throws
  deriving DecidableEq

structure Poll where
  available : Bool := true
  output : Option (List Char) := some []
  /-- The answers of the callback in their order; further ones are `true`. -/
  answers : List Answer := []

def Poll.listed (poll : Poll) : Option (List BusId) := if poll.available then enumerate poll.output else none

inductive Status where
  | running
  | ended (last : Answer)
  deriving DecidableEq

structure Watch where
  lastSeen : List BusId := []
  status : Status := .running
  calls : List BusId := []
  /-- The latest list that could be made, and whether making one has failed since. -/
  seen : Option (List BusId) := none
  failed : Bool := false

def notify : List BusId → List Answer → List BusId × Status
  | [], _ => ([], .running)
  | busId :: rest, [] => (busId :: (notify rest []).1, (notify rest []).2)
  | busId :: rest, .yes :: answers => (busId :: (notify rest answers).1, (notify rest answers).2)
  | busId :: _, answer :: _ => ([busId], .ended answer)

def Watch.start (poll : Poll) : Watch :=
  match poll.listed with
  | some listed => { lastSeen := listed, seen := some listed }
  | none => {}

def Watch.report (s : Watch) (listed : List BusId) (answers : List Answer) : Watch :=
  let called := notify (listed.filter fun busId => !s.lastSeen.contains busId) answers
  { lastSeen := if called.2 = .running then listed else s.lastSeen
    status := called.2
    calls := s.calls ++ called.1
    seen := some listed
    failed := false }

def step (poll : Poll) (s : Watch) : Watch :=
  match s.status with
  | .ended _ => s
  | .running =>
    if poll.available then
      match enumerate poll.output with
      | some listed =>
        if listed.isEmpty && s.lastSeen.isEmpty then { s with seen := some listed, failed := false }
        else s.report listed poll.answers
      | none => { s with lastSeen := [], failed := true }
    else s

theorem notify_sublist (news : List BusId) (answers : List Answer) : (notify news answers).1.Sublist news := by
  induction news generalizing answers with
  | nil => exact List.Sublist.refl _
  | cons busId rest ih =>
    cases answers with
    | nil => exact (ih []).cons_cons busId
    | cons answer answers =>
      cases answer with
      | yes => exact (ih answers).cons_cons busId
      | no => exact (nil_sublist rest).cons_cons busId
      | throws => exact (nil_sublist rest).cons_cons busId

theorem notify_running {news : List BusId} {answers : List Answer} (h : (notify news answers).2 = .running) :
    (notify news answers).1 = news := by
  induction news generalizing answers with
  | nil => rfl
  | cons busId rest ih =>
    cases answers with
    | nil => exact congrArg (busId :: ·) (ih h)
    | cons answer answers =>
      cases answer with
      | yes => exact congrArg (busId :: ·) (ih h)
      | no => cases h
      | throws => cases h

theorem notify_ended {news : List BusId} {answers : List Answer} {last : Answer}
    (h : (notify news answers).2 = .ended last) : last ∈ answers.take news.length ∧ last ≠ .yes := by
  induction news generalizing answers with
  | nil => cases h
  | cons busId rest ih =>
    cases answers with
    | nil =>
      have hrest : last ∈ [].take rest.length ∧ last ≠ .yes := ih h
      obtain ⟨hmem, -⟩ := hrest
      rw [take_nil] at hmem
      cases hmem
    | cons answer answers =>
      rw [length_cons, take_succ_cons]
      cases answer with
      | yes =>
        have hrest : last ∈ answers.take rest.length ∧ last ≠ .yes := ih h
        obtain ⟨hmem, hne⟩ := hrest
        exact ⟨mem_cons_of_mem _ hmem, hne⟩
      | no =>
        cases h
        exact ⟨mem_cons_self, fun heq => by cases heq⟩
      | throws =>
        cases h
        exact ⟨mem_cons_self, fun heq => by cases heq⟩

/-- What the round of a poll is to do: one call for each device that is listed and was not in the latest list
before, up to a call that ends the loop with `false`. -/
structure Reports (s : Watch) (poll : Poll) (s' : Watch) : Prop where
  calls : ∃ calls, s'.calls = s.calls ++ calls ∧ (∀ busId, calls.count busId ≤ 1) ∧
    (∀ busId ∈ calls, ∃ seen listed, s.seen = some seen ∧ poll.listed = some listed ∧ busId ∈ listed ∧ busId ∉ seen) ∧
    (s'.status = .running → ∀ seen listed, s.seen = some seen → poll.listed = some listed →
      ∀ busId ∈ listed, busId ∉ seen → busId ∈ calls)
  ended : ∀ last, s'.status = .ended last → last = .no

/-- The first list that can be made after none is empty, a list after a failure has no device of the list before
it, no new device is listed twice, and no callback throws. -/
structure Regular (poll : Poll) (s : Watch) (listed : List BusId) : Prop where
  baseline : s.seen = none → listed = []
  failed : s.failed = true → ∀ seen, s.seen = some seen → ∀ busId ∈ listed, busId ∉ seen
  nodup : (listed.filter fun busId => !(s.seen.getD []).contains busId).Nodup
  answers : .throws ∉ poll.answers.take (listed.filter fun busId => !(s.seen.getD []).contains busId).length

structure Watch.Inv (s : Watch) : Prop where
  none : s.seen = none → s.lastSeen = []
  known : s.status = .running → ∀ seen, s.seen = some seen → s.failed = false → s.lastSeen = seen
  failed : s.failed = true → s.lastSeen = []
  ended : ∀ last, s.status = .ended last → last = .no

theorem Watch.Inv.start (poll : Poll) : (Watch.start poll).Inv := by
  rw [Watch.start]
  split
  · exact ⟨fun h => (by cases h), fun _ seen h _ => Option.some.inj h, fun h => (by cases h), fun _ h => (by cases h)⟩
  · exact ⟨fun _ => rfl, fun _ seen h => (by cases h), fun _ => rfl, fun _ h => (by cases h)⟩

variable {s : Watch} {poll : Poll}

theorem filter_lastSeen (h : s.Inv) (hrun : s.status = .running) {listed : List BusId}
    (hreg : Regular poll s listed) :
    (listed.filter fun busId => !s.lastSeen.contains busId) =
      listed.filter fun busId => !(s.seen.getD []).contains busId := by
  cases hseen : s.seen with
  | none =>
    rw [hreg.baseline hseen]
    rfl
  | some seen =>
    rw [Option.getD_some]
    cases hfail : s.failed with
    | false => rw [h.known hrun seen hseen hfail]
    | true =>
      rw [h.failed hfail]
      apply filter_congr
      intro busId hmem
      have hnot := hreg.failed hfail seen hseen busId hmem
      simp [hnot]

theorem Reports.quiet {s s' : Watch} (hcalls : s'.calls = s.calls) (hstat : s'.status = .running)
    (hnone : ∀ listed, poll.listed = some listed → listed = []) : Reports s poll s' := by
  refine ⟨⟨[], ?_, ?_, ?_, ?_⟩, ?_⟩
  · rw [hcalls, append_nil]
  · intro busId
    exact Nat.zero_le _
  · intro busId hmem
    cases hmem
  · intro _ seen listed _ hlisted busId hmem
    rw [hnone listed hlisted] at hmem
    cases hmem
  · intro last hended
    rw [hstat] at hended
    cases hended

theorem report_spec (h : s.Inv) (hrun : s.status = .running) {listed : List BusId}
    (hlisted : poll.listed = some listed) (hreg : Regular poll s listed) :
    (s.report listed poll.answers).Inv ∧ Reports s poll (s.report listed poll.answers) := by
  have hnews := filter_lastSeen h hrun hreg
  have hended : ∀ last, (s.report listed poll.answers).status = .ended last → last = .no := by
    intro last hlast
    obtain ⟨hmem, hne⟩ := notify_ended hlast
    rw [hnews] at hmem
    cases last with
    | yes => exact absurd rfl hne
    | no => rfl
    | throws => exact absurd hmem hreg.answers
  have hmem (busId : BusId) (seen : List BusId) (hseen : s.seen = some seen) :
      (busId ∈ listed.filter fun busId => !s.lastSeen.contains busId) ↔ busId ∈ listed ∧ busId ∉ seen := by
    rw [hnews, hseen]
    simp
  constructor
  · refine ⟨fun hnone => (by cases hnone), ?_, fun hfail => (by cases hfail), hended⟩
    intro hstat seen hseen _
    cases hseen
    exact if_pos hstat
  · refine ⟨⟨_, rfl, ?_, ?_, ?_⟩, hended⟩
    · intro busId
      have hnodup := hreg.nodup
      rw [← hnews] at hnodup
      exact nodup_iff_count_le_one.mp (hnodup.sublist (notify_sublist _ _)) busId
    · intro busId hcall
      have hnew := (notify_sublist _ _).subset hcall
      cases hseen : s.seen with
      | none =>
        rw [hreg.baseline hseen] at hnew
        cases hnew
      | some seen =>
        obtain ⟨hin, hnot⟩ := (hmem busId seen hseen).mp hnew
        exact ⟨seen, listed, rfl, hlisted, hin, hnot⟩
    · intro hstat seen listed' hseen hlisted' busId hin hnot
      rw [hlisted] at hlisted'
      cases hlisted'
      rw [notify_running hstat]
      exact (hmem busId seen hseen).mpr ⟨hin, hnot⟩

theorem step_spec (h : s.Inv) (hrun : s.status = .running)
    (hreg : ∀ listed, poll.listed = some listed → Regular poll s listed) :
    (step poll s).Inv ∧ Reports s poll (step poll s) := by
  simp only [step, hrun]
  split
  · rename_i havail
    have hpoll : poll.listed = enumerate poll.output := if_pos havail
    split
    · rename_i listed hlisted
      have hlisted' := hpoll.trans hlisted
      split
      · rename_i hempty
        rw [Bool.and_eq_true, List.isEmpty_iff, List.isEmpty_iff] at hempty
        constructor
        · refine ⟨fun hnone => (by cases hnone), ?_, fun hfail => (by cases hfail), fun _ hended => (by cases hended)⟩
          intro _ seen hseen _
          cases hseen
          rw [hempty.1]
          exact hempty.2
        · refine Reports.quiet rfl rfl ?_
          intro listed' hlisted''
          rw [hlisted'] at hlisted''
          cases hlisted''
          exact hempty.1
      · exact report_spec h hrun hlisted' (hreg listed hlisted')
    · rename_i hnone
      refine ⟨⟨fun _ => rfl, fun _ seen _ hfail => (by cases hfail), fun _ => rfl, fun _ hended => (by cases hended)⟩, ?_⟩
      refine Reports.quiet rfl rfl ?_
      intro listed hlisted
      rw [hpoll, hnone] at hlisted
      cases hlisted
  · rename_i havail
    refine ⟨h, ?_⟩
    apply Reports.quiet rfl hrun
    intro listed hlisted
    rw [Poll.listed, if_neg havail] at hlisted
    cases hlisted

theorem step_of_ended (h : s.status ≠ .running) : step poll s = s := by
  rw [step]
  split
  · rfl
  · rename_i hrun
    exact absurd hrun h

def Poll.Regular (poll : Poll) (s : Watch) : Prop :=
  s.status = .running → ∀ listed, poll.listed = some listed → Usb.Regular poll s listed

/-- In a run of regular polls every arrival is reported exactly once, and the loop ends only with a callback
that returns `false`. -/
theorem arrivals_reported (first : Poll) (polls : List Poll)
    (hpolls : Allowed step Poll.Regular polls (.start first)) :
    Along step (fun s poll s' => s.status = .running → Reports s poll s') polls (.start first) ∧
      ∀ last, (runSteps step polls (.start first)).status = .ended last → last = .no := by
  have hkeep : ∀ poll (s : Watch), s.Inv → poll.Regular s → (step poll s).Inv := by
    intro poll s hs hregular
    by_cases hrunning : s.status = .running
    · exact (step_spec hs hrunning (hregular hrunning)).1
    · rw [step_of_ended hrunning]
      exact hs
  constructor
  · apply along_of_step hkeep
    · intro poll s hs hregular hrunning
      exact (step_spec hs hrunning (hregular hrunning)).2
    · exact Watch.Inv.start first
    · exact hpolls
  · exact (inv_runSteps hkeep (Watch.Inv.start first) hpolls).ended

def oneDevice : List Char := "1-1 Shared".toList

theorem arrivals_reported_once :
    let polls : List Poll := [{ output := some oneDevice }, { output := some oneDevice }]
    Allowed step Poll.Regular polls (.start {}) ∧
      Along step (fun s poll s' => s.status = .running → Reports s poll s') polls (.start {}) := by
  have hpolls : Allowed step Poll.Regular [{ output := some oneDevice }, { output := some oneDevice }] (.start {}) := by
    refine ⟨?_, ?_, trivial⟩
    · intro _ listed hlisted
      cases hlisted
      exact ⟨by decide, by decide, by decide, by decide⟩
    · intro _ listed hlisted
      cases hlisted
      exact ⟨by decide, by decide, by decide, by decide⟩
  exact ⟨hpolls, (arrivals_reported {} _ hpolls).1⟩

/-- A device is listed, the next list cannot be made, and the device is listed again: it is reported. -/
theorem arrival_reported_again :
    let first : Poll := { output := some oneDevice }
    let polls : List Poll := [{ output := none }, { output := some oneDevice }]
    (runSteps step polls (.start first)).calls = ["1-1".toList] ∧
      ¬ Along step (fun s poll s' => s.status = .running → Reports s poll s') polls (.start first) := by
  refine ⟨by decide, ?_⟩
  rintro ⟨-, h, -⟩
  obtain ⟨calls, hcalls, -, hnew, -⟩ := (h (by decide)).calls
  have hmem : "1-1".toList ∈ calls := by
    have heq : ["1-1".toList] = [] ++ calls := hcalls
    rw [nil_append] at heq
    rw [← heq]
    exact mem_singleton.mpr rfl
  obtain ⟨seen, listed, hseen, -, -, hnot⟩ := hnew _ hmem
  have hseen : some ["1-1".toList] = some seen := hseen
  cases hseen
  exact hnot (mem_singleton.mpr rfl)

end WslPlus.Usb
