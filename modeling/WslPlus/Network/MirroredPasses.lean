import WslPlus.Network.Mirrored

/-!
# Passes over tracked items

Whatever the requests do, the guest has only items that are tracked, and it has every
item whose status is synced. A pass of removals leaves, beside the items of the host,
only items slated for removal; a pass of additions tracks every item of the host. If
both succeed, guest and host agree.
-/

namespace WslPlus.Network.Mirrored

open List

section Kind

variable {α κ : Type} {key : α → κ}

/-- The guest has tracked items only, and all that are synced. -/
structure Inv (key : α → κ) (ts : List (Tracked α)) (guest : List κ) : Prop where
  known : ∀ k ∈ guest, ∃ t ∈ ts, key t.item = k
  held : ∀ t ∈ ts, t.syncStatus = .synced → key t.item ∈ guest

theorem nextAnswer_snd (p : Progress κ) : ∃ answers, (nextAnswer p).2 = { p with answers } := by
  obtain ⟨answers, guest, ok, refresh⟩ := p
  cases answers with
  | nil => exact ⟨[], rfl⟩
  | cons a answers => exact ⟨answers, rfl⟩

variable [DecidableEq κ]

variable {r : ModifyRequestType}

theorem mem_applyRequest_of_ne {k k' : κ} {guest : List κ} (hne : k' ≠ k) :
    k' ∈ applyRequest k r guest ↔ k' ∈ guest := by
  cases r with
  | remove => simp [applyRequest, hne]
  | add =>
    simp only [applyRequest]
    split <;> simp [hne]
  | update =>
    simp only [applyRequest]
    split <;> simp [hne]

theorem mem_applyRequest_self {k : κ} {guest : List κ} (hr : r ≠ .remove) : k ∈ applyRequest k r guest := by
  cases r with
  | remove => exact absurd rfl hr
  | add =>
    simp only [applyRequest]
    split <;> simp_all
  | update =>
    simp only [applyRequest]
    split <;> simp_all

structure Sent (key : α → κ) (t : Tracked α) (r : ModifyRequestType) (p : Progress κ)
    (succeeded : Bool) (t' : Tracked α) (p' : Progress κ) : Prop where
  item : t'.item = t.item
  syncStatus : t'.syncStatus = t.syncStatus
  guest : p'.guest = if succeeded then applyRequest (key t.item) r p.guest else p.guest
  syncSuccessful : p'.syncSuccessful = p.syncSuccessful

theorem sendRequestToGns_sent {t t' : Tracked α} {p p' : Progress κ} {b : Bool}
    (h : sendRequestToGns key t r p = (b, t', p')) : Sent key t r p b t' p' := by
  obtain ⟨answers, hp⟩ := nextAnswer_snd p
  rcases hn : nextAnswer p with ⟨o, p₁⟩
  rw [hn] at hp
  change p₁ = _ at hp
  subst hp
  unfold sendRequestToGns at h
  rw [hn] at h
  cases o with
  | succeeded =>
    cases h
    exact ⟨rfl, rfl, rfl, rfl⟩
  | failed =>
    cases h
    exact ⟨rfl, rfl, rfl, rfl⟩
  | threw =>
    cases h
    exact ⟨rfl, rfl, rfl, rfl⟩

inductive RemovalStep (key : α → κ) (isKept : α → Bool) (t : Tracked α) (p : Progress κ) :
    Option (Tracked α) → Progress κ → Prop where
  | kept {t' : Tracked α} (hkept : isKept t.item = true) (hitem : t'.item = t.item)
      (hstatus : t' = t ∧ t.syncStatus ≠ .pendingRemoval ∨ t'.syncStatus = .pendingUpdate) :
      RemovalStep key isKept t p (some t') p
  | slated {t' : Tracked α} {p' : Progress κ} (hkept : isKept t.item = false) (hitem : t'.item = t.item)
      (hstatus : t'.syncStatus = .pendingRemoval) (hguest : p'.guest = p.guest)
      (hsuccess : p'.syncSuccessful = true → p.syncSuccessful = true ∧ t'.syncRetryCount = 0) :
      RemovalStep key isKept t p (some t') p'
  | removed {p' : Progress κ} (hkept : isKept t.item = false)
      (hguest : p'.guest = applyRequest (key t.item) .remove p.guest)
      (hsuccess : p'.syncSuccessful = p.syncSuccessful) : RemovalStep key isKept t p none p'

theorem keepTracked_cases (making : Bool) (t : Tracked α) :
    keepTracked making t = t ∧ t.syncStatus ≠ .pendingRemoval ∨
      (keepTracked making t).syncStatus = .pendingUpdate := by
  unfold keepTracked
  by_cases h : t.syncStatus = .pendingRemoval
  · simp [h]
  · cases making with
    | true => simp [h]
    | false => simp [h]

theorem keepTracked_item (making : Bool) (t : Tracked α) : (keepTracked making t).item = t.item := by
  unfold keepTracked
  split
  · rfl
  · split <;> rfl

theorem removeTracked_step {isKept : α → Bool} {t : Tracked α} (hkept : isKept t.item = false)
    (loopback : Bool) (p : Progress κ) :
    RemovalStep key isKept t p (removeTracked key loopback t p).1 (removeTracked key loopback t p).2 := by
  -- a loopback request only uses up an answer
  have hloop : ∃ answers,
      (if loopback = true then (sendLoopbackRequestToGns p).2 else p) = { p with answers } := by
    cases loopback with
    | true => exact nextAnswer_snd p
    | false => exact ⟨p.answers, rfl⟩
  obtain ⟨answers, hanswers⟩ := hloop
  unfold removeTracked
  simp only [hanswers]
  rcases hr : sendRequestToGns key (slateForRemoval t) .remove { p with answers } with ⟨b, t', p'⟩
  have hsent := sendRequestToGns_sent hr
  cases b with
  | true => exact .removed hkept hsent.guest hsent.syncSuccessful
  | false =>
    refine .slated hkept hsent.item hsent.syncStatus hsent.guest ?_
    intro hs
    simp only [Bool.and_eq_true, decide_eq_true_eq] at hs
    exact ⟨hsent.syncSuccessful ▸ hs.1, hs.2⟩

/-- A pass of removals, item by item. -/
inductive RemovalRun (key : α → κ) (isKept : α → Bool) :
    List (Tracked α) → Progress κ → List (Tracked α) → Progress κ → Prop where
  | nil {p : Progress κ} : RemovalRun key isKept [] p [] p
  | cons {t : Tracked α} {ts ts' : List (Tracked α)} {o : Option (Tracked α)} {p p₁ p' : Progress κ}
      (hstep : RemovalStep key isKept t p o p₁) (hrest : RemovalRun key isKept ts p₁ ts' p') :
      RemovalRun key isKept (t :: ts) p (o.toList ++ ts') p'

theorem removalPass_run (isKept : α → Bool) (making loopback : Bool) (ts : List (Tracked α)) (p : Progress κ) :
    RemovalRun key isKept ts p (removalPass key isKept making loopback ts p).1
      (removalPass key isKept making loopback ts p).2 := by
  induction ts generalizing p with
  | nil => exact .nil
  | cons t ts ih =>
    refine .cons ?_ (ih _)
    cases hkept : isKept t.item with
    | true => exact .kept hkept (keepTracked_item making t) (keepTracked_cases making t)
    | false => exact removeTracked_step hkept loopback p

section RemovalRun

variable {isKept : α → Bool} {ts ts' : List (Tracked α)} {p p' : Progress κ}

theorem RemovalRun.slated (h : RemovalRun key isKept ts p ts' p') :
    ∀ t ∈ ts', isKept t.item = true ∨ t.syncStatus = .pendingRemoval := by
  induction h with
  | nil => simp
  | cons hstep _ ih =>
    cases hstep with
    | kept hkept hitem _ =>
      intro t ht
      rcases mem_cons.mp ht with rfl | ht
      · exact Or.inl (hitem ▸ hkept)
      · exact ih t ht
    | slated _ _ hstat _ _ =>
      intro t ht
      rcases mem_cons.mp ht with rfl | ht
      · exact Or.inr hstat
      · exact ih t ht
    | removed _ _ _ => exact ih

theorem RemovalRun.success (h : RemovalRun key isKept ts p ts' p') (hs : p'.syncSuccessful = true) :
    p.syncSuccessful = true ∧ ∀ t ∈ ts', t.syncStatus = .pendingRemoval → t.syncRetryCount = 0 := by
  induction h with
  | nil => exact ⟨hs, by simp⟩
  | cons hstep _ ih =>
    obtain ⟨hp, hall⟩ := ih hs
    cases hstep with
    | kept _ _ hstat =>
      refine ⟨hp, ?_⟩
      intro t ht hslate
      rcases mem_cons.mp ht with rfl | ht
      · rcases hstat with ⟨rfl, hne⟩ | hupdate
        · exact absurd hslate hne
        · rw [hupdate] at hslate
          cases hslate
      · exact hall t ht hslate
    | slated _ _ _ _ hsuccess =>
      obtain ⟨hp₀, hzero⟩ := hsuccess hp
      refine ⟨hp₀, ?_⟩
      intro t ht hslate
      rcases mem_cons.mp ht with rfl | ht
      · exact hzero
      · exact hall t ht hslate
    | removed _ _ hsuccess => exact ⟨hsuccess ▸ hp, hall⟩

theorem RemovalRun.mem_of_kept (hkey : ∀ x y, key x = key y → isKept x = isKept y)
    (h : RemovalRun key isKept ts p ts' p') {x : α} (hx : isKept x = true) (hmem : key x ∈ p.guest) :
    key x ∈ p'.guest := by
  induction h with
  | nil => exact hmem
  | cons hstep _ ih =>
    refine ih ?_
    cases hstep with
    | kept _ _ _ => exact hmem
    | slated _ _ _ hguest _ => exact hguest ▸ hmem
    | @removed _ hkept hguest _ =>
      rw [hguest]
      refine (mem_applyRequest_of_ne ?_).mpr hmem
      intro heq
      rw [hkey _ _ heq, hkept] at hx
      cases hx

theorem RemovalRun.known (others : κ → Prop) (h : RemovalRun key isKept ts p ts' p')
    (hp : ∀ k ∈ p.guest, (∃ t ∈ ts, key t.item = k) ∨ others k) :
    ∀ k ∈ p'.guest, (∃ t ∈ ts', key t.item = k) ∨ others k := by
  induction h generalizing others with
  | nil => exact hp
  | @cons t ts ts' o p p₁ p' hstep _ ih =>
    -- the item is kept under its key, or its key has left the guest
    have hfirst : ∀ k ∈ p₁.guest,
        (∃ t ∈ ts, key t.item = k) ∨ ((∃ t ∈ o.toList, key t.item = k) ∨ others k) := by
      intro k hk
      cases hstep with
      | kept _ hitem _ =>
        rcases hp k hk with ⟨t₁, ht₁, rfl⟩ | hother
        · rcases mem_cons.mp ht₁ with rfl | ht₁
          · exact Or.inr (Or.inl ⟨_, mem_singleton.mpr rfl, by rw [hitem]⟩)
          · exact Or.inl ⟨t₁, ht₁, rfl⟩
        · exact Or.inr (Or.inr hother)
      | slated _ hitem _ hguest _ =>
        rcases hp k (hguest ▸ hk) with ⟨t₁, ht₁, rfl⟩ | hother
        · rcases mem_cons.mp ht₁ with rfl | ht₁
          · exact Or.inr (Or.inl ⟨_, mem_singleton.mpr rfl, by rw [hitem]⟩)
          · exact Or.inl ⟨t₁, ht₁, rfl⟩
        · exact Or.inr (Or.inr hother)
      | removed _ hguest _ =>
        rw [hguest] at hk
        simp only [applyRequest, mem_filter, decide_eq_true_eq] at hk
        rcases hp k hk.1 with ⟨t₁, ht₁, rfl⟩ | hother
        · rcases mem_cons.mp ht₁ with rfl | ht₁
          · exact absurd rfl hk.2
          · exact Or.inl ⟨t₁, ht₁, rfl⟩
        · exact Or.inr (Or.inr hother)
    intro k hk
    rcases ih _ hfirst k hk with ⟨t₁, ht₁, rfl⟩ | ⟨t₁, ht₁, rfl⟩ | hother
    · exact Or.inl ⟨t₁, mem_append_right _ ht₁, rfl⟩
    · exact Or.inl ⟨t₁, mem_append_left _ ht₁, rfl⟩
    · exact Or.inr hother

theorem RemovalRun.synced (h : RemovalRun key isKept ts p ts' p') :
    ∀ t ∈ ts', t.syncStatus = .synced → isKept t.item = true ∧ t ∈ ts := by
  induction h with
  | nil => simp
  | cons hstep _ ih =>
    have htail : ∀ {t t₀ : Tracked α} {ts : List (Tracked α)}, isKept t.item = true ∧ t ∈ ts →
        isKept t.item = true ∧ t ∈ t₀ :: ts := fun h => ⟨h.1, mem_cons_of_mem _ h.2⟩
    intro t ht hsync
    cases hstep with
    | kept hkept _ hstat =>
      rcases mem_cons.mp ht with rfl | ht
      · rcases hstat with ⟨rfl, _⟩ | hupdate
        · exact ⟨hkept, mem_cons_self⟩
        · rw [hupdate] at hsync
          cases hsync
      · exact htail (ih t ht hsync)
    | slated _ _ hstat _ _ =>
      rcases mem_cons.mp ht with rfl | ht
      · rw [hstat] at hsync
        cases hsync
      · exact htail (ih t ht hsync)
    | removed _ _ _ => exact htail (ih t ht hsync)

theorem RemovalRun.inv (hkey : ∀ x y, key x = key y → isKept x = isKept y)
    (h : RemovalRun key isKept ts p ts' p') (hinv : Inv key ts p.guest) : Inv key ts' p'.guest where
  known := by
    intro k hk
    have hknown := h.known (fun _ => False) (fun k hk => Or.inl (hinv.known k hk)) k hk
    simpa using hknown
  held := by
    intro t ht hsync
    obtain ⟨hkept, hmem⟩ := h.synced t ht hsync
    exact h.mem_of_kept hkey hkept (hinv.held t hmem hsync)

end RemovalRun

end Kind

section Additions

variable {α κ : Type} {key : α → κ} {less : α → α → Bool}

variable {ts : List (Tracked α)} {t : Tracked α}

theorem mem_emplace_of_mem {x : α} (ht : t ∈ ts) : t ∈ (emplace less x ts).2 := by
  induction ts with
  | nil => cases ht
  | cons t₀ ts ih =>
    simp only [emplace]
    split
    · exact mem_cons_of_mem _ ht
    · split
      · rcases mem_cons.mp ht with rfl | ht
        · exact mem_cons_self
        · exact mem_cons_of_mem _ (ih ht)
      · exact ht

theorem of_mem_emplace {x : α} (ht : t ∈ (emplace less x ts).2) : t ∈ ts ∨ t = { item := x } := by
  induction ts with
  | nil => exact Or.inr (mem_singleton.mp ht)
  | cons t₀ ts ih =>
    simp only [emplace] at ht
    split at ht
    · rcases mem_cons.mp ht with rfl | ht
      · exact Or.inr rfl
      · exact Or.inl ht
    · split at ht
      · rcases mem_cons.mp ht with rfl | ht
        · exact Or.inl mem_cons_self
        · exact (ih ht).imp_left (mem_cons_of_mem _)
      · exact Or.inl ht

theorem emplaced (htotal : ∀ x y, less x y = false → less y x = false → key x = key y) (x : α)
    (ts : List (Tracked α)) : ∃ t ∈ (emplace less x ts).2, key t.item = key x := by
  induction ts with
  | nil => exact ⟨_, mem_singleton.mpr rfl, rfl⟩
  | cons t₀ ts ih =>
    simp only [emplace]
    cases hx : less x t₀.item with
    | true => exact ⟨_, mem_cons_self, rfl⟩
    | false =>
      cases hx' : less t₀.item x with
      | true =>
        obtain ⟨t, ht, heq⟩ := ih
        exact ⟨t, mem_cons_of_mem _ ht, heq⟩
      | false => exact ⟨t₀, mem_cons_self, htotal _ _ hx' hx⟩

variable {host : List α}

theorem mem_emplaceAll_of_mem (ht : t ∈ ts) : t ∈ (emplaceAll less host ts).2 := by
  induction host generalizing ts with
  | nil => exact ht
  | cons x host ih => exact ih (mem_emplace_of_mem ht)

theorem of_mem_emplaceAll (ht : t ∈ (emplaceAll less host ts).2) : t ∈ ts ∨ ∃ x ∈ host, t = { item := x } := by
  induction host generalizing ts with
  | nil => exact Or.inl ht
  | cons x host ih =>
    rcases ih ht with hmem | ⟨y, hy, rfl⟩
    · rcases of_mem_emplace hmem with hmem | rfl
      · exact Or.inl hmem
      · exact Or.inr ⟨x, mem_cons_self, rfl⟩
    · exact Or.inr ⟨y, mem_cons_of_mem _ hy, rfl⟩

theorem emplacedAll (htotal : ∀ x y, less x y = false → less y x = false → key x = key y)
    (host : List α) (ts : List (Tracked α)) :
    ∀ x ∈ host, ∃ t ∈ (emplaceAll less host ts).2, key t.item = key x := by
  induction host generalizing ts with
  | nil => simp
  | cons x host ih =>
    intro y hy
    rcases mem_cons.mp hy with rfl | hy
    · obtain ⟨t, ht, heq⟩ := emplaced htotal y ts
      have hmem : t ∈ (emplaceAll less host (emplace less y ts).2).2 := mem_emplaceAll_of_mem ht
      exact ⟨t, hmem, heq⟩
    · exact ih _ y hy

theorem Inv.emplaceAll {guest : List κ} (h : Inv key ts guest) :
    Inv key (emplaceAll less host ts).2 guest where
  known := by
    intro k hk
    obtain ⟨t, ht, heq⟩ := h.known k hk
    exact ⟨t, mem_emplaceAll_of_mem ht, heq⟩
  held := by
    intro t ht hsync
    rcases of_mem_emplaceAll ht with ht | ⟨x, _, rfl⟩
    · exact h.held t ht hsync
    · cases hsync

structure AdditionStep (key : α → κ) (t : Tracked α) (p : Progress κ) (t' : Tracked α)
    (p' : Progress κ) : Prop where
  same : key t'.item = key t.item
  slated : t.syncStatus = .pendingRemoval → t' = t
  slated_of : t'.syncStatus = .pendingRemoval → t.syncStatus = .pendingRemoval
  mono : ∀ k ∈ p.guest, k ∈ p'.guest
  only : ∀ k ∈ p'.guest, k ∈ p.guest ∨ k = key t.item
  held : t'.syncStatus = .synced → t.syncStatus = .synced ∨ key t.item ∈ p'.guest
  success : p'.syncSuccessful = true → p.syncSuccessful = true ∧
    (t'.syncStatus = .pendingRemoval ∨ t'.syncStatus = .synced ∨ t'.syncRetryCount = 0)

/-- What a pass of additions leaves behind. -/
structure AdditionRun (key : α → κ) (ts : List (Tracked α)) (p : Progress κ) (ts' : List (Tracked α))
    (p' : Progress κ) : Prop where
  mono : ∀ k ∈ p.guest, k ∈ p'.guest
  only : ∀ k ∈ p'.guest, k ∈ p.guest ∨ ∃ t ∈ ts', key t.item = k
  covers : ∀ t ∈ ts, ∃ t' ∈ ts', key t'.item = key t.item
  source : ∀ t' ∈ ts', ∃ t ∈ ts, key t'.item = key t.item ∧
    (t'.syncStatus = .pendingRemoval → t' = t) ∧ (t.syncStatus = .pendingRemoval → t' = t) ∧
    (t'.syncStatus = .synced → t.syncStatus = .synced ∨ key t.item ∈ p'.guest)
  success : p'.syncSuccessful = true → p.syncSuccessful = true ∧ ∀ t' ∈ ts',
    t'.syncStatus = .pendingRemoval ∨ t'.syncStatus = .synced ∨ t'.syncRetryCount = 0

theorem additionPass_run {sync : Tracked α → Progress κ → Tracked α × Progress κ}
    (hsync : ∀ t p, AdditionStep key t p (sync t p).1 (sync t p).2) (ts : List (Tracked α)) (p : Progress κ) :
    AdditionRun key ts p (additionPass sync ts p).1 (additionPass sync ts p).2 := by
  induction ts generalizing p with
  | nil =>
    exact
      { mono := fun _ h => h
        only := fun _ h => Or.inl h
        covers := by simp
        source := by simp [additionPass]
        success := fun h => ⟨h, by simp [additionPass]⟩ }
  | cons t ts ih =>
    have hfirst := hsync t p
    have hrest := ih (sync t p).2
    exact
      { mono := fun k hk => hrest.mono k (hfirst.mono k hk)
        only := by
          intro k hk
          rcases hrest.only k hk with hk | ⟨t', ht', heq⟩
          · rcases hfirst.only k hk with hk | rfl
            · exact Or.inl hk
            · exact Or.inr ⟨_, mem_cons_self, hfirst.same⟩
          · exact Or.inr ⟨t', mem_cons_of_mem _ ht', heq⟩
        covers := by
          intro t₁ ht₁
          rcases mem_cons.mp ht₁ with rfl | ht₁
          · exact ⟨_, mem_cons_self, hfirst.same⟩
          · obtain ⟨t', ht', heq⟩ := hrest.covers t₁ ht₁
            exact ⟨t', mem_cons_of_mem _ ht', heq⟩
        source := by
          intro t' ht'
          rcases mem_cons.mp ht' with rfl | ht'
          · refine ⟨t, mem_cons_self, hfirst.same, ?_, hfirst.slated, ?_⟩
            · exact fun h => hfirst.slated (hfirst.slated_of h)
            · exact fun h => (hfirst.held h).imp_right (hrest.mono _)
          · obtain ⟨t₁, ht₁, hprops⟩ := hrest.source t' ht'
            exact ⟨t₁, mem_cons_of_mem _ ht₁, hprops⟩
        success := by
          intro hs
          obtain ⟨hp₁, hall⟩ := hrest.success hs
          obtain ⟨hp, hone⟩ := hfirst.success hp₁
          refine ⟨hp, ?_⟩
          intro t' ht'
          rcases mem_cons.mp ht' with rfl | ht'
          · exact hone
          · exact hall t' ht' }

variable {p p' : Progress κ}

theorem AdditionRun.inv {ts ts' : List (Tracked α)}
    (h : AdditionRun key ts p ts' p') (hinv : Inv key ts p.guest) : Inv key ts' p'.guest where
  known := by
    intro k hk
    rcases h.only k hk with hk | hmem
    · obtain ⟨t, ht, rfl⟩ := hinv.known k hk
      exact h.covers t ht
    · exact hmem
  held := by
    intro t' ht' hsync
    obtain ⟨t, ht, heq, _, _, hheld⟩ := h.source t' ht'
    rw [heq]
    rcases hheld hsync with hsync | hmem
    · exact h.mono _ (hinv.held t ht hsync)
    · exact hmem

/-- What requests to add or update one item do to the guest. -/
structure Pushed (k : κ) (p : Progress κ) (succeeded : Bool) (p' : Progress κ) : Prop where
  mono : ∀ k' ∈ p.guest, k' ∈ p'.guest
  only : ∀ k' ∈ p'.guest, k' ∈ p.guest ∨ k' = k
  added : succeeded = true → k ∈ p'.guest
  syncSuccessful : p'.syncSuccessful = p.syncSuccessful

theorem Pushed.nothing (k : κ) (p : Progress κ) : Pushed k p false p where
  mono _ h := h
  only _ h := Or.inl h
  added h := by cases h
  syncSuccessful := rfl

theorem Pushed.trans {k : κ} {p p₁ p₂ : Progress κ} {b b' : Bool} (h : Pushed k p b p₁)
    (h' : Pushed k p₁ b' p₂) : Pushed k p b' p₂ where
  mono k' hk := h'.mono k' (h.mono k' hk)
  only k' hk := (h'.only k' hk).elim (h.only k') Or.inr
  added := h'.added
  syncSuccessful := h'.syncSuccessful.trans h.syncSuccessful

theorem Pushed.imp {k : κ} {p p₁ p₂ : Progress κ} {b b' : Bool} (h : Pushed k p b p₁)
    (hb : b' = true → b = true) (hguest : p₂.guest = p₁.guest)
    (hsuccess : p₂.syncSuccessful = p₁.syncSuccessful) : Pushed k p b' p₂ where
  mono k' hk := hguest ▸ h.mono k' hk
  only k' hk := h.only k' (hguest ▸ hk)
  added hb' := hguest ▸ h.added (hb hb')
  syncSuccessful := hsuccess.trans h.syncSuccessful

variable {b : Bool}

theorem settle_step {t t' : Tracked α} (hp : Pushed (key t.item) p b p') (hitem : key t'.item = key t.item)
    (hne : t.syncStatus ≠ .pendingRemoval) (hne' : t'.syncStatus ≠ .pendingRemoval)
    (hsync : t'.syncStatus = .synced → t.syncStatus = .synced) :
    AdditionStep key t p (settle b t' p').1 (settle b t' p').2 where
  same := by cases b <;> exact hitem
  slated h := absurd h hne
  slated_of := by
    cases b with
    | true =>
      intro h
      cases h
    | false => exact fun h => absurd h hne'
  mono := hp.mono
  only := hp.only
  held := by
    intro h
    cases b with
    | true => exact Or.inr (hp.added rfl)
    | false => exact Or.inl (hsync h)
  success := by
    intro h
    simp only [settle, Bool.and_eq_true, Bool.or_eq_true, decide_eq_true_eq] at h
    exact ⟨hp.syncSuccessful ▸ h.1, Or.inr h.2⟩

variable [DecidableEq κ]

theorem sendRequestToGns_pushed {t t' : Tracked α} {r : ModifyRequestType} (hr : r ≠ .remove)
    (h : sendRequestToGns key t r p = (b, t', p')) :
    Pushed (key t.item) p b p' := by
  have hsent := sendRequestToGns_sent h
  have hguest := hsent.guest
  cases b with
  | false =>
    exact (Pushed.nothing (key t.item) p).imp (fun h => h) hguest hsent.syncSuccessful
  | true =>
    simp only [if_true] at hguest
    refine ⟨?_, ?_, fun _ => hguest ▸ mem_applyRequest_self hr, hsent.syncSuccessful⟩
    · intro k hk
      rw [hguest]
      by_cases hsame : k = key t.item
      · rw [hsame]
        exact mem_applyRequest_self hr
      · exact (mem_applyRequest_of_ne hsame).mpr hk
    · intro k hk
      by_cases hsame : k = key t.item
      · exact Or.inr hsame
      · rw [hguest] at hk
        exact Or.inl ((mem_applyRequest_of_ne hsame).mp hk)

theorem sendEither_pushed {t t' : Tracked α} {r other : ModifyRequestType} (hr : r ≠ .remove)
    (hother : other ≠ .remove) (h : sendEither key r other t p = (b, t', p')) :
    Pushed (key t.item) p b p' ∧ t'.item = t.item ∧ t'.syncStatus = t.syncStatus := by
  unfold sendEither at h
  rcases hfirst : sendRequestToGns key t r p with ⟨b₁, t₁, p₁⟩
  have hsent := sendRequestToGns_sent hfirst
  have hpush := sendRequestToGns_pushed hr hfirst
  rw [hfirst] at h
  cases b₁ with
  | true =>
    cases h
    exact ⟨hpush, hsent.item, hsent.syncStatus⟩
  | false =>
    have hsent' := sendRequestToGns_sent h
    have hpush' := sendRequestToGns_pushed hother h
    rw [hsent.item] at hpush'
    exact ⟨hpush.trans hpush', hsent'.item.trans hsent.item, hsent'.syncStatus.trans hsent.syncStatus⟩

end Additions

section Agreement

variable {α κ : Type} {key : α → κ} {isKept : α → Bool} {less : α → α → Bool} {host : List α}
variable {ts ts' : List (Tracked α)} {p p' : Progress κ} {guest : List κ}

theorem AdditionRun.synced (h : AdditionRun key (emplaceAll less host ts).2 p ts' p')
    (hzero : ∀ t ∈ ts, t.syncStatus = .pendingRemoval → t.syncRetryCount = 0)
    (hall : ∀ t ∈ ts', t.syncStatus = .pendingRemoval ∨ t.syncStatus = .synced ∨ t.syncRetryCount = 0)
    (hretries : ∀ t ∈ ts', t.syncRetryCount = 0 → t.syncStatus = .synced) :
    ∀ t ∈ ts', t.syncStatus = .synced := by
  intro t' ht'
  rcases hall t' ht' with hslate | hsync | hnone
  · obtain ⟨t, ht, _, hsame, _, _⟩ := h.source t' ht'
    have heq := hsame hslate
    subst heq
    rcases of_mem_emplaceAll ht with ht | ⟨x, _, rfl⟩
    · exact hretries t' ht' (hzero t' ht hslate)
    · cases hslate
  · exact hsync
  · exact hretries t' ht' hnone

theorem AdditionRun.agrees (h : AdditionRun key (emplaceAll less host ts).2 p ts' p')
    (hinv : Inv key ts' guest) (hslate : ∀ t ∈ ts, isKept t.item = true ∨ t.syncStatus = .pendingRemoval)
    (hkept : ∀ x, isKept x = true → key x ∈ host.map key)
    (htotal : ∀ x y, less x y = false → less y x = false → key x = key y)
    (hsync : ∀ t ∈ ts', t.syncStatus = .synced) (k : κ) : k ∈ guest ↔ k ∈ host.map key := by
  constructor
  · intro hk
    obtain ⟨t', ht', rfl⟩ := hinv.known k hk
    obtain ⟨t, ht, heq, _, hremoval, _⟩ := h.source t' ht'
    rw [heq]
    rcases of_mem_emplaceAll ht with ht | ⟨x, hx, rfl⟩
    · rcases hslate t ht with hk | hpend
      · exact hkept t.item hk
      · have hboth := hsync t' ht'
        rw [hremoval hpend, hpend] at hboth
        cases hboth
    · exact mem_map_of_mem hx
  · intro hk
    obtain ⟨x, hx, rfl⟩ := mem_map.mp hk
    obtain ⟨t, ht, heq⟩ := emplacedAll htotal host ts x hx
    obtain ⟨t', ht', heq'⟩ := h.covers t ht
    rw [← heq, ← heq']
    exact hinv.held t' ht' (hsync t' ht')

theorem nothing_left (hinv : Inv key ts guest)
    (hslate : ∀ t ∈ ts, isKept t.item = true ∨ t.syncStatus = .pendingRemoval) (hkept : ∀ x, isKept x = false)
    (hzero : ∀ t ∈ ts, t.syncStatus = .pendingRemoval → t.syncRetryCount = 0)
    (hretries : ∀ t ∈ ts, t.syncRetryCount = 0 → t.syncStatus = .synced) : ts = [] ∧ guest = [] := by
  have hts : ts = [] := by
    refine eq_nil_iff_forall_not_mem.mpr ?_
    intro t ht
    rcases hslate t ht with hk | hpend
    · rw [hkept] at hk
      cases hk
    · have hsync := hretries t ht (hzero t ht hpend)
      rw [hpend] at hsync
      cases hsync
  refine ⟨hts, eq_nil_iff_forall_not_mem.mpr ?_⟩
  intro k hk
  obtain ⟨t, ht, _⟩ := hinv.known k hk
  rw [hts] at ht
  cases ht

end Agreement

end WslPlus.Network.Mirrored
