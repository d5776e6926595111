import Mathlib.Algebra.Order.BigOperators.Group.List
import Mathlib.Algebra.Order.Group.Nat
import WslPlus.Plan9.Flush

/-!
# Which requests wait for which

A `Tflush` waits for whatever request its search finds. It may be the `Tflush` itself or a
request that arrived later, which may wait for it in turn. If a search only ever finds
requests that arrived before it, then the waits have an order and come to an end.
-/

namespace WslPlus.Plan9

open List

def Phase.rest : Phase → Nat
  | .received => 4
  | .started => 3
  | .waiting _ => 2
  | .answered => 1

namespace Connection

/-- A message has no tag that a `Tflush` has yet to search for, nor its own old tag. -/
def TagUnsought : Op → Connection → Prop
  | .receive tag oldTag, s => oldTag ≠ some tag ∧ ∀ r ∈ s.requests, ¬(r.early = true ∧ r.oldTag = some tag)
  | _, _ => True

instance (op : Op) (s : Connection) : Decidable (TagUnsought op s) :=
  match op with
  | .receive tag oldTag => inferInstanceAs (Decidable
      (oldTag ≠ some tag ∧ ∀ r ∈ s.requests, ¬(r.early = true ∧ r.oldTag = some tag)))
  | .launch _ => .isTrue trivial
  | .search _ => .isTrue trivial
  | .answer _ => .isTrue trivial
  | .finish _ => .isTrue trivial

def WaitsFor (s : Connection) (i j : Nat) : Prop :=
  ∃ f ∈ s.requests, f.id = i ∧ f.phase = .waiting (some j) ∧ j ∈ s.ids

def Acyclic (s : Connection) : Prop := ∀ i, ¬Relation.TransGen s.WaitsFor i i

def OnlyFlushes (s : Connection) : Prop := ∀ r ∈ s.requests, r.oldTag.isSome = true

def Own : Op → Prop
  | .receive _ _ => False
  | .launch _ => True
  | .search _ => True
  | .answer _ => True
  | .finish _ => True

structure Earlier (s : Connection) : Prop extends s.Sound where
  sought : ∀ f ∈ s.requests, ∀ q ∈ s.requests, f.early = true → f.oldTag = some q.info.tag → q.id < f.id
  before : ∀ f ∈ s.requests, ∀ w, f.phase = .waiting (some w) → w < f.id
  last : ∀ r ∈ s.requests, r.phase = .received → ∀ q ∈ s.requests, q.id ≤ r.id

variable {s s' : Connection} {op : Op}

theorem Earlier.initial : Earlier Connection.initial where
  sorted := List.Pairwise.nil
  fresh := nofun
  answered := nofun
  sentFresh := nofun
  once := nodup_nil
  gone := nofun
  waits := nofun
  sought := nofun
  before := nofun
  last := nofun

section

variable (h : s.Earlier)
include h

theorem Earlier.arrive {tag : UInt16} {oldTag : Option UInt16}
    (hidle : ∀ r ∈ s.requests, r.phase ≠ .received) (hfree : TagUnsought (.receive tag oldTag) s) :
    (s.arrive tag oldTag).Earlier := by
  have hmem {q : Tracked} (hq : q ∈ (s.arrive tag oldTag).requests) :
      q ∈ s.requests ∨ q = ⟨s.next, ⟨tag, false⟩, oldTag, .received, s.targetOf tag oldTag⟩ :=
    (mem_append.mp hq).imp_right mem_singleton.mp
  refine ⟨h.toSound.arrive tag oldTag, ?_, ?_, ?_⟩
  · intro f hf q hq hearly hold
    rcases hmem hf with hf | rfl
    · rcases hmem hq with hq | rfl
      · exact h.sought f hf q hq hearly hold
      · exact absurd ⟨hearly, hold⟩ (hfree.2 f hf)
    · rcases hmem hq with hq | rfl
      · exact h.fresh _ (mem_ids hq)
      · exact absurd hold hfree.1
  · intro f hf w hw
    rcases hmem hf with hf | rfl
    · exact h.before f hf w hw
    · cases hw
  · intro r hr hphase q hq
    rcases hmem hr with hr | rfl
    · exact absurd hphase (hidle r hr)
    · rcases hmem hq with hq | rfl
      · exact Nat.le_of_lt (h.fresh _ (mem_ids hq))
      · exact Nat.le_refl _

theorem Earlier.before_effect (he : Effect s op s') :
    ∀ f ∈ s'.requests, ∀ w, f.phase = .waiting (some w) → w < f.id := by
  intro f hf w hw
  cases he with
  | arrived tag oldTag hidle =>
    rcases mem_append.mp hf with hf | hf
    · exact h.before f hf w hw
    · rw [mem_singleton.mp hf] at hw
      cases hw
  | launched r hr hphase =>
    rcases mem_setPhase h.toSound hr hf with rfl | ⟨hf, -⟩
    · cases hw
    · exact h.before f hf w hw
  | missed r t hr hphase holdTag hnone =>
    rcases mem_setPhase h.toSound hr hf with rfl | ⟨hf, -⟩
    · cases hw
    · exact h.before f hf w hw
  | found r found t hr hphase holdTag hfound htag hcancel =>
    obtain ⟨p, hp, rfl⟩ := mem_update.mp hf
    by_cases hpr : p.id = r.id
    · rw [if_pos hpr] at hw ⊢
      cases hw
      have hlt := h.sought r hr found hfound (by simp [Tracked.early, hphase]) (by rw [htag, holdTag])
      exact hpr ▸ hlt
    · rw [if_neg hpr] at hw ⊢
      obtain ⟨p₀, hp₀, rfl⟩ := mem_update.mp hp
      split at hw
      · split
        · exact h.before p₀ hp₀ w hw
        · contradiction
      · split
        · contradiction
        · exact h.before p₀ hp₀ w hw
  | answered r hr hready =>
    rcases mem_setPhase h.toSound hr hf with rfl | ⟨hf, -⟩
    · cases hw
    · exact h.before f hf w hw
  | finished r hr hphase => exact h.before f (mem_of_mem_filter hf) w hw

theorem Earlier.effect (he : Effect s op s') (hfree : TagUnsought op s) : s'.Earlier := by
  by_cases hop : ∃ tag oldTag, op = .receive tag oldTag
  · obtain ⟨tag, oldTag, rfl⟩ := hop
    cases he with
    | arrived tag oldTag hidle => exact h.arrive hidle hfree
  · have horig := he.origin h.toSound fun tag oldTag heq => hop ⟨tag, oldTag, heq⟩
    refine ⟨h.toSound.effect he, ?_, h.before_effect he, ?_⟩
    · intro f hf q hq hearly hold
      obtain ⟨f₀, hf₀, hbf, -⟩ := horig f hf
      obtain ⟨q₀, hq₀, hbq, -⟩ := horig q hq
      rw [hbf.id, hbq.id]
      exact h.sought f₀ hf₀ q₀ hq₀ (hbf.early hearly) (by rw [← hbf.oldTag, ← hbq.tag, hold])
    · intro r hr hphase q hq
      obtain ⟨r₀, hr₀, hbr, -⟩ := horig r hr
      obtain ⟨q₀, hq₀, hbq, -⟩ := horig q hq
      rw [hbr.id, hbq.id]
      exact h.last r₀ hr₀ (hbr.received hphase) q₀ hq₀

theorem Earlier.kept (hfree : TagUnsought op s) : (step op s).Earlier := by
  rcases step_effect op s with heq | he
  · rw [heq]
    exact h
  · exact h.effect he hfree

theorem Earlier.acyclic : s.Acyclic := by
  have hlt {i j : Nat} (hij : Relation.TransGen s.WaitsFor i j) : j < i := by
    induction hij with
    | single hwaits =>
      obtain ⟨f, hf, rfl, hphase, -⟩ := hwaits
      exact h.before f hf _ hphase
    | tail _ hwaits ih =>
      obtain ⟨f, hf, rfl, hphase, -⟩ := hwaits
      exact Nat.lt_trans (h.before f hf _ hphase) ih
  intro i hcycle
  exact Nat.lt_irrefl i (hlt hcycle)

end

section Measure

def stepsLeft (s : Connection) : Nat := (s.requests.map fun r => r.phase.rest).sum

theorem stepsLeft_setPhase (h : s.Sound) {r : Tracked} (hr : r ∈ s.requests) (phase : Phase)
    (hlower : phase.rest < r.phase.rest) : (s.setPhase r.id phase).stepsLeft < s.stepsLeft := by
  rw [stepsLeft, setPhase, update, map_map]
  refine sum_lt_sum _ _ ?_ ⟨r, hr, ?_⟩
  · intro q hq
    simp only [Function.comp]
    split
    · rename_i hid
      rw [h.unique hq hr hid]
      exact Nat.le_of_lt hlower
    · exact Nat.le_refl _
  · simpa using hlower

theorem stepsLeft_mark (id : Nat) : (s.mark id).stepsLeft = s.stepsLeft := by
  rw [stepsLeft, mark, update, map_map]
  refine congrArg List.sum (map_congr_left ?_)
  intro q _
  simp only [Function.comp]
  split
  · rfl
  · rfl

theorem sum_filter_lt {l : List Tracked} {p : Tracked → Bool} {w : Tracked → Nat} {r : Tracked} (hr : r ∈ l)
    (hp : p r = false) (hw : 0 < w r) : ((l.filter p).map w).sum < (l.map w).sum := by
  induction l with
  | nil => cases hr
  | cons q l ih =>
    have hle : ((l.filter p).map w).sum ≤ (l.map w).sum :=
      (filter_sublist.map w).sum_le_sum fun _ _ => Nat.zero_le _
    rcases mem_cons.mp hr with rfl | hr
    · rw [filter_cons_of_neg (by simp [hp]), map_cons, sum_cons]
      omega
    · have hlt := ih hr
      by_cases hq : p q = true
      · rw [filter_cons_of_pos hq, map_cons, map_cons, sum_cons, sum_cons]
        omega
      · rw [filter_cons_of_neg hq, map_cons, sum_cons]
        omega

theorem Effect.lower (h : s.Sound) (he : Effect s op s') (hop : Own op) : s'.stepsLeft < s.stepsLeft := by
  cases he with
  | arrived tag oldTag hidle => exact hop.elim
  | launched r hr hphase => exact stepsLeft_setPhase h hr .started (by rw [hphase]; decide)
  | missed r t hr hphase holdTag hnone => exact stepsLeft_setPhase h hr (.waiting none) (by rw [hphase]; decide)
  | found r found t hr hphase holdTag hfound htag hcancel =>
    obtain ⟨r', hr', hid, hphase'⟩ : ∃ r' ∈ (s.mark found.id).requests, r'.id = r.id ∧ r'.phase = .started := by
      refine ⟨_, mem_update.mpr ⟨r, hr, rfl⟩, ?_⟩
      split
      · exact ⟨rfl, hphase⟩
      · exact ⟨rfl, hphase⟩
    rw [← hid]
    refine Nat.lt_of_lt_of_eq ?_ (stepsLeft_mark found.id)
    exact stepsLeft_setPhase (h.mark hfound) hr' (.waiting (some found.id)) (by rw [hphase']; simp [Phase.rest])
  | answered r hr hready =>
    refine stepsLeft_setPhase h hr .answered ?_
    have hphase := ready_phase hready
    cases hr' : r.phase with
    | answered => exact absurd hr' hphase
    | _ => simp [Phase.rest]
  | finished r hr hphase =>
    refine sum_filter_lt (r := r) hr (by simp) ?_
    rw [hphase]
    decide

end Measure

section Progress

theorem onRequest_head {r : Tracked} {rest : List Tracked} (hs : s.requests = r :: rest)
    (g : Tracked → Connection) : s.onRequest r.id g = g r := by
  rw [onRequest, hs, find?_cons_of_pos (by simp)]

theorem Earlier.progress (h : s.Earlier) (hflushes : s.OnlyFlushes) :
    s.requests = [] ∨ ∃ op, Own op ∧ step op s ≠ s := by
  cases hs : s.requests with
  | nil => exact .inl rfl
  | cons r rest =>
    refine .inr ?_
    have hr : r ∈ s.requests := by
      rw [hs]
      exact mem_cons_self
    have hsorted := h.sorted
    rw [ids, hs, map_cons, pairwise_cons] at hsorted
    have hlower (op : Op) (hop : Own op) {s' : Connection} (hstep : step op s = s') (he : Effect s op s') :
        ∃ op, Own op ∧ step op s ≠ s := by
      refine ⟨op, hop, ?_⟩
      rw [hstep]
      intro heq
      have hlt := he.lower h.toSound hop
      rw [heq] at hlt
      exact Nat.lt_irrefl _ hlt
    have hanswer (hready : s.ready r = true) : ∃ op, Own op ∧ step op s ≠ s := by
      refine hlower (.answer r.id) trivial ?_ (.answered r hr hready)
      rw [step, onRequest_head hs, answer, if_pos hready]
    cases hphase : r.phase with
    | received =>
      have hrest : rest = [] := by
        rw [eq_nil_iff_forall_not_mem]
        intro q hq
        have hlt := hsorted.1 q.id (mem_map_of_mem hq)
        have hle := h.last r hr hphase q (by rw [hs]; exact mem_cons_of_mem r hq)
        omega
      refine hlower (.launch r.id) trivial ?_ (.launched r hr hphase)
      have hroom : (s.requests.filter fun q => q.phase ≠ .received).length < maximumMessages := by
        rw [hs, hrest, filter_cons_of_neg (by simp [hphase])]
        decide
      rw [step, onRequest_head hs, launch, if_pos ⟨hphase, hroom⟩]
    | started =>
      obtain ⟨t, hold⟩ := Option.isSome_iff_exists.mp (hflushes r hr)
      have hsearch : step (.search r.id) s = s.search r := by rw [step, onRequest_head hs]
      rcases search_cases r hr with heq | he
      · exfalso
        rw [search, hphase, hold] at heq
        simp only at heq
        split at heq
        · rename_i hfind
          have hlt := stepsLeft_setPhase h.toSound hr (.waiting none) (by rw [hphase]; decide)
          rw [heq] at hlt
          exact Nat.lt_irrefl _ hlt
        · rename_i q hfind
          have hq := find?_some hfind
          simp only [decide_eq_true_eq] at hq
          have hlt := (Effect.found r q t hr hphase hold (mem_of_find?_eq_some hfind) hq.1 hq.2).lower
            h.toSound trivial
          rw [heq] at hlt
          exact Nat.lt_irrefl _ hlt
      · exact hlower (.search r.id) trivial hsearch he
    | waiting w =>
      refine hanswer ?_
      cases w with
      | none => rw [ready, hphase]
      | some w =>
        rw [ready, hphase]
        simp only [all_eq_true, bne_iff_ne]
        intro q hq hid
        have hlt := h.before r hr w hphase
        rw [hs] at hq
        rcases mem_cons.mp hq with rfl | hq
        · omega
        · have hgt := hsorted.1 q.id (mem_map_of_mem hq)
          omega
    | answered =>
      refine hlower (.finish r.id) trivial ?_ (.finished r hr hphase)
      rw [step, onRequest_head hs, finish, if_pos hphase]

theorem OnlyFlushes.kept (hflushes : s.OnlyFlushes) (h : s.Sound) (hop : Own op) : (step op s).OnlyFlushes := by
  rcases step_effect op s with heq | he
  · rw [heq]
    exact hflushes
  · intro q hq
    have hreceive : ∀ tag oldTag, op ≠ .receive tag oldTag := by
      rintro tag oldTag rfl
      exact hop
    obtain ⟨p, hp, hbecomes, -⟩ := he.origin h hreceive q hq
    rw [hbecomes.oldTag]
    exact hflushes p hp

theorem Earlier.settles (h : s.Earlier) (hflushes : s.OnlyFlushes) :
    Settles Connection.step Own (fun s => s.requests = []) s := by
  refine settles_of_measure (fun s => s.Earlier ∧ s.OnlyFlushes) stepsLeft ?_ ?_ ?_ ⟨h, hflushes⟩
  · rintro op s ⟨h, hflushes⟩ hop
    refine ⟨h.kept ?_, hflushes.kept h.toSound hop⟩
    cases op with
    | receive tag oldTag => exact hop.elim
    | _ => trivial
  · rintro op s ⟨h, -⟩ hop hne
    exact ((step_effect op s).resolve_left hne).lower h.toSound hop
  · rintro s ⟨h, hflushes⟩
    exact h.progress hflushes

end Progress

/-- In every run in which no message takes a tag that a `Tflush` has yet to search for, or its own
old tag, no request waits for itself through others, and when all but the flushes are completed,
the server's own steps complete them all. -/
theorem flush_waits_end {ops : List Op} (hops : Allowed step TagUnsought ops Connection.initial) :
    (runSteps step ops Connection.initial).Acyclic ∧ ((runSteps step ops Connection.initial).OnlyFlushes →
        Settles step Own (fun s => s.requests = []) (runSteps step ops Connection.initial)) := by
  have h : (runSteps step ops Connection.initial).Earlier :=
    inv_runSteps (fun op s hs hop => hs.kept hop) Earlier.initial hops
  exact ⟨h.acyclic, h.settles⟩

def chainRun : List Op :=
  [.receive 5 none, .launch 0, .receive 6 (some 5), .launch 1, .search 1, .receive 7 (some 6), .launch 2, .search 2,
    .answer 0, .finish 0]

theorem chainRun_ends :
    Allowed step TagUnsought chainRun Connection.initial ∧
      (runSteps step chainRun Connection.initial).OnlyFlushes ∧
      Settles step Own (fun s => s.requests = []) (runSteps step chainRun Connection.initial) := by
  have hops : Allowed step TagUnsought chainRun Connection.initial := by decide
  have hflushes : (runSteps step chainRun Connection.initial).OnlyFlushes := by
    unfold OnlyFlushes
    decide
  exact ⟨hops, hflushes, (flush_waits_end hops).2 hflushes⟩

/-- A `Tflush` of its own tag. -/
def selfFlushRun : List Op := [.receive 5 (some 5), .launch 0, .search 0]

theorem selfFlushRun_cycle : ¬(runSteps step selfFlushRun Connection.initial).Acyclic := by
  intro hacyclic
  refine hacyclic 0 (.single ⟨⟨0, ⟨5, true⟩, some 5, .waiting (some 0), some 0⟩, ?_, rfl, rfl, ?_⟩)
  · decide
  · decide

end Connection

end WslPlus.Plan9
