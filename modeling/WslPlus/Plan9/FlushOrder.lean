import WslPlus.Plan9.Flush

/-!
# The order of a response and its flush

A client that uses tags properly still gets an `Rflush` too early if it takes a tag again
before the server has removed the request that had it, or before a `Tflush` of that tag has
searched the list. As long as neither happens, an `Rflush` follows the response of the
request that it flushes.
-/

namespace WslPlus.Plan9

open List

namespace Connection

def ClientKeeps : Op → Connection → Prop
  | .receive tag oldTag, s => (∀ r ∈ s.requests, r.info.tag = tag → r.phase = .answered) ∧
      ∀ i ∈ (s.targetOf tag oldTag).toList, i ∉ s.flushed
  | _, _ => True

/-- A tag is used only if no request in the list has it and no `Tflush` has yet to search for it. -/
def TagFree : Op → Connection → Prop
  | .receive tag _, s => ∀ r ∈ s.requests, r.info.tag ≠ tag ∧ ¬(r.early = true ∧ r.oldTag = some tag)
  | _, _ => True

instance (op : Op) (s : Connection) : Decidable (ClientKeeps op s) :=
  match op with
  | .receive _ _ => inferInstanceAs (Decidable (_ ∧ _))
  | .launch _ => .isTrue trivial
  | .search _ => .isTrue trivial
  | .answer _ => .isTrue trivial
  | .finish _ => .isTrue trivial

instance (op : Op) (s : Connection) : Decidable (TagFree op s) :=
  match op with
  | .receive tag _ =>
    inferInstanceAs (Decidable (∀ r ∈ s.requests, r.info.tag ≠ tag ∧ ¬(r.early = true ∧ r.oldTag = some tag)))
  | .launch _ => .isTrue trivial
  | .search _ => .isTrue trivial
  | .answer _ => .isTrue trivial
  | .finish _ => .isTrue trivial

/-- Every request is answered at most once, and an `Rflush` comes after the response of the
request that was in flight under its old tag. -/
def FlushOrdered (s : Connection) : Prop :=
  s.sentIds.Nodup ∧ ∀ before f after, s.sent = before ++ f :: after →
    ∀ i, f.target = some i → i ∈ before.map Sent.id

/-- What a connection keeps as long as tags are free when they are used. -/
structure Aimed (s : Connection) : Prop extends s.Sound where
  distinct : ∀ p ∈ s.requests, ∀ q ∈ s.requests, p.info.tag = q.info.tag → p.id = q.id
  plain : ∀ f ∈ s.requests, f.oldTag = none → f.target = none
  counted : ∀ f ∈ s.requests, ∀ i, f.target = some i → i ∈ s.flushed
  sole : ∀ f ∈ s.requests, ∀ g ∈ s.requests, ∀ i, f.target = some i → g.target = some i → f.id = g.id
  aimed : ∀ f ∈ s.requests, ∀ q ∈ s.requests, f.early = true → f.oldTag = some q.info.tag →
    q.phase ≠ .answered → f.target = some q.id
  marks : ∀ q ∈ s.requests, q.info.cancelled = true → q.phase = .answered ∨ q.id ∈ s.flushed
  toSearch : ∀ f ∈ s.requests, f.early = true → ∀ i, f.target = some i → i ∈ s.sentIds ∨
    ∃ q ∈ s.requests, q.id = i ∧ f.oldTag = some q.info.tag ∧ q.info.cancelled = false
  waiting : ∀ f ∈ s.requests, ∀ w, f.phase = .waiting w → ∀ i, f.target = some i → i ∈ s.sentIds ∨ w = some i
  order : ∀ before f after, s.sent = before ++ f :: after → ∀ i, f.target = some i → i ∈ before.map Sent.id

variable {s s' : Connection} {op : Op}

theorem Aimed.initial : Aimed Connection.initial where
  sorted := List.Pairwise.nil
  fresh := nofun
  answered := nofun
  sentFresh := nofun
  once := nodup_nil
  gone := nofun
  waits := nofun
  distinct := nofun
  plain := nofun
  counted := nofun
  sole := nofun
  aimed := nofun
  marks := nofun
  toSearch := nofun
  waiting := nofun
  order := by
    intro before f after hsent
    have hnil : ([] : List Sent) = before ++ f :: after := hsent
    simp at hnil

theorem targetOf_some {tag : UInt16} {oldTag : Option UInt16} {i : Nat} (h : s.targetOf tag oldTag = some i) :
    ∃ q ∈ (s.arrive tag oldTag).requests, q.id = i ∧ oldTag = some q.info.tag ∧ q.phase ≠ .answered := by
  rw [targetOf, Option.bind_eq_some_iff] at h
  obtain ⟨t, rfl, h⟩ := h
  rw [inFlight, Option.map_eq_some_iff] at h
  obtain ⟨q, hfind, rfl⟩ := h
  have hq := find?_some hfind
  simp only [decide_eq_true_eq] at hq
  rcases mem_append.mp (mem_of_find?_eq_some hfind) with hmem | hmem
  · exact ⟨q, mem_append_left _ hmem, rfl, by rw [hq.1], hq.2⟩
  · rw [mem_singleton.mp hmem] at hq ⊢
    exact ⟨_, mem_append_right _ (mem_singleton.mpr rfl), rfl, by rw [hq.1], hq.2⟩

theorem targetOf_eq {tag t : UInt16} {q : Tracked} (hq : q ∈ (s.arrive tag (some t)).requests)
    (htag : q.info.tag = t) (hphase : q.phase ≠ .answered)
    (hsole : ∀ p ∈ (s.arrive tag (some t)).requests, p.info.tag = t → p.id = q.id) :
    s.targetOf tag (some t) = some q.id := by
  have hfind : ∃ p ∈ s.requests ++ [(⟨s.next, ⟨tag, false⟩, some t, .received, none⟩ : Tracked)],
      decide (p.info.tag = t ∧ p.phase ≠ .answered) = true := by
    rcases mem_append.mp hq with hq | hq
    · exact ⟨q, mem_append_left _ hq, by simpa using ⟨htag, hphase⟩⟩
    · rw [mem_singleton.mp hq] at htag
      exact ⟨_, mem_append_right _ (mem_singleton.mpr rfl), by simpa using htag⟩
  cases hres : s.targetOf tag (some t) with
  | none =>
    obtain ⟨p, hp, hcond⟩ := hfind
    have hnone : (s.requests ++ [(⟨s.next, ⟨tag, false⟩, some t, .received, none⟩ : Tracked)]).find?
        (fun r => r.info.tag = t ∧ r.phase ≠ .answered) = none := by
      simpa [targetOf, inFlight] using hres
    exact absurd hcond (find?_eq_none.mp hnone p hp)
  | some i =>
    obtain ⟨p, hp, rfl, htag', -⟩ := targetOf_some hres
    rw [hsole p hp (Option.some.inj htag').symm]

theorem Aimed.arrive (h : s.Aimed) {tag : UInt16} {oldTag : Option UInt16}
    (hclient : ClientKeeps (.receive tag oldTag) s) (hfree : TagFree (.receive tag oldTag) s) :
    (s.arrive tag oldTag).Aimed := by
  have hmem {q : Tracked} (hq : q ∈ (s.arrive tag oldTag).requests) :
      q ∈ s.requests ∨ q = ⟨s.next, ⟨tag, false⟩, oldTag, .received, s.targetOf tag oldTag⟩ :=
    (mem_append.mp hq).imp_right mem_singleton.mp
  have hdist : ∀ p ∈ (s.arrive tag oldTag).requests, ∀ q ∈ (s.arrive tag oldTag).requests,
      p.info.tag = q.info.tag → p.id = q.id := by
    intro p hp q hq htag
    rcases hmem hp with hp | rfl
    · rcases hmem hq with hq | rfl
      · exact h.distinct p hp q hq htag
      · exact absurd htag (hfree p hp).1
    · rcases hmem hq with hq | rfl
      · exact absurd htag.symm (hfree q hq).1
      · rfl
  have hnew {i : Nat} (hi : s.targetOf tag oldTag = some i) : i ∉ s.flushed :=
    hclient.2 i (Option.mem_toList.mpr hi)
  refine ⟨h.toSound.arrive tag oldTag, hdist, ?_, ?_, ?_, ?_, ?_, ?_, ?_, h.order⟩
  · intro f hf hold
    rcases hmem hf with hf | rfl
    · exact h.plain f hf hold
    · obtain rfl : oldTag = none := hold
      rfl
  · intro f hf i hi
    rcases hmem hf with hf | rfl
    · exact mem_append_left _ (h.counted f hf i hi)
    · exact mem_append_right _ (Option.mem_toList.mpr hi)
  · intro f hf g hg i hfi hgi
    rcases hmem hf with hf | rfl
    · rcases hmem hg with hg | rfl
      · exact h.sole f hf g hg i hfi hgi
      · exact absurd (h.counted f hf i hfi) (hnew hgi)
    · rcases hmem hg with hg | rfl
      · exact absurd (h.counted g hg i hgi) (hnew hfi)
      · rfl
  · intro f hf q hq hearly hold hphase
    rcases hmem hf with hf | rfl
    · rcases hmem hq with hq | rfl
      · exact h.aimed f hf q hq hearly hold hphase
      · exact absurd ⟨hearly, hold⟩ (hfree f hf).2
    · obtain rfl : oldTag = some q.info.tag := hold
      refine targetOf_eq hq rfl hphase ?_
      intro p hp htag
      exact hdist p hp q hq htag
  · intro q hq hcancel
    rcases hmem hq with hq | rfl
    · exact (h.marks q hq hcancel).imp_right (mem_append_left _)
    · cases hcancel
  · intro f hf hearly i hi
    rcases hmem hf with hf | rfl
    · refine (h.toSearch f hf hearly i hi).imp_right ?_
      rintro ⟨q, hq, hid, hold, hcancel⟩
      exact ⟨q, mem_append_left _ hq, hid, hold, hcancel⟩
    · obtain ⟨q, hq, rfl, hold, hphase⟩ := targetOf_some hi
      refine .inr ⟨q, hq, rfl, hold, ?_⟩
      cases hcancel : q.info.cancelled with
      | false => rfl
      | true =>
        rcases hmem hq with hq' | rfl
        · rcases h.marks q hq' hcancel with hans | hflushed
          · exact absurd hans hphase
          · exact absurd hflushed (hnew hi)
        · cases hcancel
  · intro f hf w hw i hi
    rcases hmem hf with hf | rfl
    · exact h.waiting f hf w hw i hi
    · cases hw

theorem Effect.flushed (he : Effect s op s') (hop : ∀ tag oldTag, op ≠ .receive tag oldTag) :
    s'.flushed = s.flushed := by
  cases he with
  | arrived tag oldTag hidle => exact absurd rfl (hop tag oldTag)
  | _ => rfl

theorem Effect.sent (he : Effect s op s') : ∀ i ∈ s.sentIds, i ∈ s'.sentIds := by
  intro i hi
  cases he with
  | answered r hr hready =>
    simp only [sentIds, map_append]
    exact mem_append_left _ hi
  | _ => exact hi

theorem Aimed.ready (h : s.Aimed) {r : Tracked} (hr : r ∈ s.requests) (hready : s.ready r = true) {i : Nat}
    (hi : r.target = some i) : i ∈ s.sentIds := by
  rw [Connection.ready] at hready
  split at hready
  · cases hready
  · rw [h.plain r hr (Option.isNone_iff_eq_none.mp hready)] at hi
    cases hi
  · rename_i hphase
    rcases h.waiting r hr none hphase i hi with hsent | hw
    · exact hsent
    · cases hw
  · rename_i w hphase
    rcases h.waiting r hr (some w) hphase i hi with hsent | hw
    · exact hsent
    · cases hw
      refine h.gone i (h.waits r hr i hphase) ?_
      intro hmem
      obtain ⟨q, hq, hid⟩ := mem_map.mp hmem
      have hne := all_eq_true.mp hready q hq
      simp [hid] at hne
  · cases hready

theorem Aimed.order_effect (h : s.Aimed) (he : Effect s op s') :
    ∀ before f after, s'.sent = before ++ f :: after → ∀ i, f.target = some i → i ∈ before.map Sent.id := by
  cases he with
  | answered r hr hready =>
    intro before f after hsent i hi
    rcases eq_nil_or_concat after with rfl | ⟨rest, last, rfl⟩
    · obtain ⟨rfl, hf⟩ := append_inj' hsent rfl
      cases hf
      exact h.ready hr hready hi
    · have hsplit : s.sent ++ [⟨r.id, r.info.tag, r.target⟩] = (before ++ f :: rest) ++ [last] := by
        rw [concat_eq_append] at hsent
        rw [append_assoc, cons_append]
        exact hsent
      exact h.order before f rest (append_inj' hsplit rfl).1 i hi
  | _ => exact h.order

theorem Aimed.waiting_effect (h : s.Aimed) (he : Effect s op s') :
    ∀ f ∈ s'.requests, ∀ w, f.phase = .waiting w → ∀ i, f.target = some i → i ∈ s'.sentIds ∨ w = some i := by
  intro f hf w hw i hi
  have hold (hf : f ∈ s.requests) : i ∈ s'.sentIds ∨ w = some i :=
    (h.waiting f hf w hw i hi).imp_left (he.sent i)
  cases he with
  | arrived tag oldTag hidle =>
    rcases mem_append.mp hf with hf | hf
    · exact hold hf
    · rw [mem_singleton.mp hf] at hw
      cases hw
  | launched r hr hphase =>
    rcases mem_setPhase h.toSound hr hf with rfl | ⟨hf, -⟩
    · cases hw
    · exact hold hf
  | missed r t hr hphase holdTag hnone =>
    rcases mem_setPhase h.toSound hr hf with rfl | ⟨hf, -⟩
    · rcases h.toSearch r hr (by simp [Tracked.early, hphase]) i hi with hsent | ⟨q, hq, -, htag, hcancel⟩
      · exact .inl hsent
      · rw [holdTag] at htag
        rw [hnone q hq (Option.some.inj htag).symm] at hcancel
        cases hcancel
    · exact hold hf
  | found r found t hr hphase holdTag hfound htag hcancel =>
    obtain ⟨p, hp, rfl⟩ := mem_update.mp hf
    obtain ⟨p₀, hp₀, hmark⟩ := mem_update.mp hp
    have hid : p.id = p₀.id := by
      rw [← hmark]
      split
      · rfl
      · rfl
    have htarget : p.target = p₀.target := by
      rw [← hmark]
      split
      · rfl
      · rfl
    have hsame : p.phase = p₀.phase := by
      rw [← hmark]
      split
      · rfl
      · rfl
    by_cases hpr : p.id = r.id
    · rw [if_pos hpr] at hw hi
      cases hw
      have hp₀r : p₀ = r := h.unique hp₀ hr (hid.symm.trans hpr)
      have hi' : r.target = some i := by rw [← hp₀r, ← htarget]; exact hi
      rcases h.toSearch r hr (by simp [Tracked.early, hphase]) i hi' with hsent | ⟨q, hq, rfl, hq', -⟩
      · exact .inl hsent
      · rw [holdTag] at hq'
        rw [h.distinct q hq found hfound (by rw [htag, Option.some.inj hq'])]
        exact .inr rfl
    · rw [if_neg hpr] at hw hi
      exact h.waiting p₀ hp₀ w (hsame ▸ hw) i (htarget ▸ hi)
  | answered r hr hready =>
    rcases mem_setPhase h.toSound hr hf with rfl | ⟨hf, -⟩
    · cases hw
    · exact hold hf
  | finished r hr hphase => exact hold (mem_of_mem_filter hf)

theorem Aimed.effect (h : s.Aimed) (he : Effect s op s') (hclient : ClientKeeps op s) (hfree : TagFree op s) :
    s'.Aimed := by
  by_cases hop : ∃ tag oldTag, op = .receive tag oldTag
  · obtain ⟨tag, oldTag, rfl⟩ := hop
    cases he
    exact h.arrive hclient hfree
  · have hop : ∀ tag oldTag, op ≠ .receive tag oldTag := fun tag oldTag heq => hop ⟨tag, oldTag, heq⟩
    have horig := he.origin h.toSound hop
    refine ⟨h.toSound.effect he, ?_, ?_, ?_, ?_, ?_, ?_, ?_, h.waiting_effect he, h.order_effect he⟩
    · intro p hp q hq htag
      obtain ⟨p₀, hp₀, hbp, -⟩ := horig p hp
      obtain ⟨q₀, hq₀, hbq, -⟩ := horig q hq
      rw [hbp.id, hbq.id]
      exact h.distinct p₀ hp₀ q₀ hq₀ (by rw [← hbp.tag, ← hbq.tag, htag])
    · intro f hf hnone
      obtain ⟨f₀, hf₀, hbf, -⟩ := horig f hf
      rw [hbf.target]
      exact h.plain f₀ hf₀ (hbf.oldTag ▸ hnone)
    · intro f hf i hi
      obtain ⟨f₀, hf₀, hbf, -⟩ := horig f hf
      rw [he.flushed hop]
      exact h.counted f₀ hf₀ i (hbf.target ▸ hi)
    · intro f hf g hg i hfi hgi
      obtain ⟨f₀, hf₀, hbf, -⟩ := horig f hf
      obtain ⟨g₀, hg₀, hbg, -⟩ := horig g hg
      rw [hbf.id, hbg.id]
      exact h.sole f₀ hf₀ g₀ hg₀ i (hbf.target ▸ hfi) (hbg.target ▸ hgi)
    · intro f hf q hq hearly hold hphase
      obtain ⟨f₀, hf₀, hbf, -⟩ := horig f hf
      obtain ⟨q₀, hq₀, hbq, -⟩ := horig q hq
      rw [hbf.target, hbq.id]
      refine h.aimed f₀ hf₀ q₀ hq₀ (hbf.early hearly) ?_ fun hans => hphase (hbq.answered hans)
      rw [← hbf.oldTag, ← hbq.tag, hold]
    · intro q hq hcancel
      obtain ⟨q₀, hq₀, hbq, hinfo⟩ := horig q hq
      rw [he.flushed hop, hbq.id]
      rcases hinfo with hinfo | ⟨r, hr, hearly, hold⟩
      · exact (h.marks q₀ hq₀ (hinfo ▸ hcancel)).imp_left hbq.answered
      · by_cases hphase : q₀.phase = .answered
        · exact .inl (hbq.answered hphase)
        · exact .inr (h.counted r hr _ (h.aimed r hr q₀ hq₀ hearly hold hphase))
    · intro f hf hearly i hi
      obtain ⟨f₀, hf₀, hbf, -⟩ := horig f hf
      rw [hbf.target] at hi
      rcases h.toSearch f₀ hf₀ (hbf.early hearly) i hi with hsent | ⟨q, hq, rfl, hold, hcancel⟩
      · exact .inl (he.sent i hsent)
      · by_cases hphase : q.phase = .answered
        · exact .inl (he.sent _ ((h.answered q hq).mpr hphase))
        · obtain ⟨q', hq', hbq, hinfo | ⟨r, hr, hr', hold', -, rfl⟩⟩ := he.survives h.toSound hq hphase
          · refine .inr ⟨q', hq', hbq.id, ?_, by rw [hinfo, hcancel]⟩
            rw [hbf.oldTag, hbq.tag, hold]
          · -- The search was made by the only request that aims at this one, and it is over.
            have hid := h.sole f₀ hf₀ r hr q.id hi (h.aimed r hr q hq hr' hold' hphase)
            obtain ⟨p, hp, hpf⟩ := mem_update.mp hf
            have hpr : p.id = r.id := by
              have hpf' : f.id = p.id := by
                rw [← hpf]
                split
                · rfl
                · rfl
              rw [← hpf', hbf.id, hid]
            rw [if_pos hpr] at hpf
            rw [← hpf] at hearly
            simp [Tracked.early] at hearly

theorem aimed_runSteps {ops : List Op}
    (hops : Allowed step (fun op s => ClientKeeps op s ∧ TagFree op s) ops Connection.initial) :
    (runSteps step ops Connection.initial).Aimed := by
  refine inv_runSteps ?_ Aimed.initial hops
  rintro op s hs ⟨hclient, hfree⟩
  rcases step_effect op s with heq | he
  · rw [heq]
    exact hs
  · exact hs.effect he hclient hfree

/-- In every run of a client that keeps to the rules, in which a tag is free in the server
whenever it is used, an `Rflush` follows the response of the request that it flushes. -/
theorem flush_ordered {ops : List Op}
    (hops : Allowed step (fun op s => ClientKeeps op s ∧ TagFree op s) ops Connection.initial) :
    FlushOrdered (runSteps step ops Connection.initial) :=
  ⟨(aimed_runSteps hops).once, (aimed_runSteps hops).order⟩

def flushRun : List Op :=
  [.receive 5 none, .launch 0, .receive 6 (some 5), .launch 1, .search 1, .answer 0, .finish 0, .answer 1]

theorem flushRun_ordered :
    Allowed step (fun op s => ClientKeeps op s ∧ TagFree op s) flushRun Connection.initial ∧
      FlushOrdered (runSteps step flushRun Connection.initial) := by
  have hops : Allowed step (fun op s => ClientKeeps op s ∧ TagFree op s) flushRun Connection.initial := by
    decide
  exact ⟨hops, flush_ordered hops⟩

/-- Tag 5 is used again after its response but before the first request is removed. The flush of
the second request finds the first one. -/
def staleRun : List Op :=
  [.receive 5 none, .launch 0, .answer 0, .receive 5 none, .launch 1, .receive 6 (some 5), .launch 2, .search 2,
    .finish 0, .answer 2]

theorem staleRun_not_ordered :
    Allowed step ClientKeeps staleRun Connection.initial ∧
      ¬FlushOrdered (runSteps step staleRun Connection.initial) := by
  refine ⟨by decide, ?_⟩
  rintro ⟨-, horder⟩
  have hsent : (runSteps step staleRun Connection.initial).sent =
      [⟨0, 5, none⟩] ++ ⟨2, 6, some 1⟩ :: [] := by decide
  have hmem := horder _ _ _ hsent 1 rfl
  revert hmem
  decide

end Connection

end WslPlus.Plan9
