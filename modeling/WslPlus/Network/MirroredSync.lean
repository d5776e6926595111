import WslPlus.Lib.Transition
import WslPlus.Network.MirroredPasses

/-!
# Mirroring reports success only when guest and host agree

The passes for addresses and for routes are put together to a call, and calls to runs.
-/

namespace WslPlus.Network.Mirrored

theorem pushAddress_step {loopback : Bool} {r other : ModifyRequestType} (hr : r ≠ .remove)
    (hother : other ≠ .remove) {t t₀ : Tracked HostIpAddress} (p : Progress EndpointIpAddress)
    (hitem : t₀.item.toEndpointIpAddress = t.item.toEndpointIpAddress)
    (hne : t.syncStatus ≠ .pendingRemoval) (hne₀ : t₀.syncStatus ≠ .pendingRemoval)
    (hsync : t₀.syncStatus ≠ .synced) :
    AdditionStep HostIpAddress.toEndpointIpAddress t p (pushAddress loopback r other t₀ p).1
      (pushAddress loopback r other t₀ p).2 := by
  unfold pushAddress
  rcases h : sendEither HostIpAddress.toEndpointIpAddress r other t₀ p with ⟨b, t', p'⟩
  obtain ⟨hpush, hitem', hstat⟩ := sendEither_pushed hr hother h
  rw [hitem] at hpush
  have hsame : t'.item.toEndpointIpAddress = t.item.toEndpointIpAddress := by rw [hitem', hitem]
  have hne' : t'.syncStatus ≠ .pendingRemoval := by rw [hstat]; exact hne₀
  have hsync' : t'.syncStatus = .synced → t.syncStatus = .synced := by
    rw [hstat]
    exact fun h => absurd h hsync
  cases b with
  | false => exact settle_step (hpush.imp (fun h => h) rfl rfl) hsame hne hne' hsync'
  | true =>
    cases loopback with
    | false => exact settle_step (hpush.imp (fun h => h) rfl rfl) hsame hne hne' hsync'
    | true =>
      obtain ⟨answers, hanswers⟩ := nextAnswer_snd p'
      refine settle_step (hpush.imp (fun _ => rfl) ?_ ?_) hsame hne hne' hsync'
      · simp only [sendLoopbackRequestToGns, hanswers]
      · simp only [sendLoopbackRequestToGns, hanswers]

theorem slated_step {α κ : Type} {key : α → κ} {t : Tracked α} (p : Progress κ)
    (h : t.syncStatus = .pendingRemoval) : AdditionStep key t p t p where
  same := rfl
  slated _ := rfl
  slated_of := id
  mono _ hk := hk
  only _ hk := Or.inl hk
  held := Or.inl
  success hs := ⟨hs, Or.inl h⟩

theorem syncAddress_step (loopback : Bool) (host : List HostIpAddress) (refresh : Bool)
    (t : Tracked HostIpAddress) (p : Progress EndpointIpAddress) :
    AdditionStep HostIpAddress.toEndpointIpAddress t p (syncAddress loopback host refresh t p).1
      (syncAddress loopback host refresh t p).2 := by
  unfold syncAddress
  cases hstat : t.syncStatus with
  | pendingAdd =>
    exact pushAddress_step (by decide) (by decide) p rfl (by simp [hstat]) (by simp [hstat])
      (by simp [hstat])
  | pendingUpdate =>
    exact pushAddress_step (by decide) (by decide) p rfl (by simp [hstat]) (by simp [hstat])
      (by simp [hstat])
  | pendingRemoval => exact slated_step p hstat
  | synced =>
    cases preferredChange host t with
    | some a =>
      exact pushAddress_step (by decide) (by decide) p rfl (by simp [hstat]) (by simp) (by simp)
    | none =>
      cases refresh with
      | true =>
        exact pushAddress_step (by decide) (by decide) p rfl (by simp [hstat]) (by simp) (by simp)
      | false =>
        exact settle_step (Pushed.nothing _ p) rfl (by simp [hstat]) (by simp [hstat]) id

theorem syncRoute_step (t : Tracked HostRoute) (p : Progress EndpointRoute) :
    AdditionStep HostRoute.toEndpointRoute t p (syncRoute t p).1 (syncRoute t p).2 := by
  unfold syncRoute
  cases hstat : t.syncStatus with
  | pendingAdd =>
    rcases h : sendEither HostRoute.toEndpointRoute .add .update t p with ⟨b, t', p'⟩
    obtain ⟨hpush, hitem, hsame⟩ := sendEither_pushed (by decide) (by decide) h
    exact settle_step hpush (by rw [hitem]) (by simp [hstat]) (by simp [hsame, hstat])
      (by simp [hsame, hstat])
  | pendingUpdate =>
    rcases h : sendEither HostRoute.toEndpointRoute .update .add t p with ⟨b, t', p'⟩
    obtain ⟨hpush, hitem, hsame⟩ := sendEither_pushed (by decide) (by decide) h
    exact settle_step hpush (by rw [hitem]) (by simp [hstat]) (by simp [hsame, hstat])
      (by simp [hsame, hstat])
  | pendingRemoval => exact slated_step p hstat
  | synced =>
    cases hrefresh : p.refreshAllRoutes with
    | false => exact settle_step (Pushed.nothing _ p) rfl (by simp [hstat]) (by simp [hstat]) id
    | true =>
      rcases h : sendEither HostRoute.toEndpointRoute .update .add t p with ⟨b, t', p'⟩
      obtain ⟨hpush, hitem, hsame⟩ := sendEither_pushed (by decide) (by decide) h
      cases b with
      | true =>
        exact settle_step hpush (by rw [hitem]) (by simp [hstat]) (by simp [hsame, hstat])
          (fun _ => hstat)
      | false => exact settle_step hpush (by rw [hitem]) (by simp [hstat]) (by simp) (by simp)

theorem HostIpAddress.key_of_not_less (a b : HostIpAddress) (hab : a.less b = false)
    (hba : b.less a = false) : a.toEndpointIpAddress = b.toEndpointIpAddress :=
  EndpointIpAddress.eq_of_not_less hab hba

theorem HostRoute.key_of_not_less (a b : HostRoute) (hab : a.less b = false) (hba : b.less a = false) :
    a.toEndpointRoute = b.toEndpointRoute := EndpointRoute.eq_of_not_less hab hba

theorem HostRoute.key_of_not_trackedLess (a b : HostRoute) (hab : a.trackedLess b = false)
    (hba : b.trackedLess a = false) : a.toEndpointRoute = b.toEndpointRoute := by
  unfold trackedLess at hab hba
  obtain ⟨_, hab, hba⟩ :=
    eq_of_not_less_field (f := fun (x y : Nat) => decide (x < y)) eq_of_not_lt hab hba
  exact HostRoute.key_of_not_less a b hab hba

variable {n : NetworkSettings}

theorem keepsAddress_congr (a b : HostIpAddress) (h : a.toEndpointIpAddress = b.toEndpointIpAddress) :
    n.keepsAddress a = n.keepsAddress b := by
  simp only [NetworkSettings.keepsAddress, contains, HostIpAddress.less, h]

theorem keepsRoute_congr (a b : HostRoute) (h : a.toEndpointRoute = b.toEndpointRoute) :
    n.keepsRoute a = n.keepsRoute b := by
  simp only [NetworkSettings.keepsRoute, contains, HostRoute.less, h]

theorem mem_of_contains {α κ : Type} {key : α → κ} {less : α → α → Bool}
    (htotal : ∀ x y, less x y = false → less y x = false → key x = key y) {host : List α} {x : α}
    (h : contains less host x = true) : key x ∈ host.map key := by
  simp only [contains, List.any_eq_true, Bool.and_eq_true, Bool.not_eq_true'] at h
  obtain ⟨y, hy, hxy, hyx⟩ := h
  rw [htotal x y hxy hyx]
  exact List.mem_map_of_mem hy

theorem mem_of_keepsAddress (a : HostIpAddress) (h : n.keepsAddress a = true) :
    a.toEndpointIpAddress ∈ n.ipAddresses.map HostIpAddress.toEndpointIpAddress := by
  simp only [NetworkSettings.keepsAddress, Bool.and_eq_true] at h
  exact mem_of_contains HostIpAddress.key_of_not_less h.2

theorem mem_of_keepsRoute (r : HostRoute) (h : n.keepsRoute r = true) :
    r.toEndpointRoute ∈ n.routes.map HostRoute.toEndpointRoute := by
  simp only [NetworkSettings.keepsRoute, Bool.and_eq_true] at h
  exact mem_of_contains HostRoute.key_of_not_less h.2

theorem keeps_nothing (h : n.isShown = false) :
    (∀ a, n.keepsAddress a = false) ∧ ∀ r, n.keepsRoute r = false := by
  unfold NetworkSettings.keepsAddress NetworkSettings.keepsRoute
  cases hhidden : n.isHidden with
  | true => simp
  | false =>
    have hconnected : n.isConnected = false := by simpa [NetworkSettings.isShown, hhidden] using h
    obtain ⟨haddr, hroutes⟩ := n.disconnected hconnected
    simp [haddr, hroutes, contains]

/-- The guest has the items of the host if the interface is shown, and none otherwise. -/
structure KindAgrees {α κ : Type} (key : α → κ) (shown : Bool) (host : List α) (ts : List (Tracked α))
    (guest : List κ) : Prop where
  items : ∀ k, k ∈ guest ↔ shown = true ∧ k ∈ host.map key
  synced : ∀ t ∈ ts, t.syncStatus = .synced

def RetriesLeft {α : Type} (ts : List (Tracked α)) : Prop :=
  ∀ t ∈ ts, t.syncRetryCount = 0 → t.syncStatus = .synced

section Additions

variable {ts : List (Tracked HostIpAddress)} {p : Progress EndpointIpAddress}
variable {rs : List (Tracked HostRoute)} {q : Progress EndpointRoute}

theorem kindAgrees_of_nothing {α κ : Type} {key : α → κ} {host : List α} {ts : List (Tracked α)}
    {guest : List κ} (h : ts = [] ∧ guest = []) : KindAgrees key false host ts guest where
  items := by simp [h.2]
  synced := by simp [h.1]

theorem kindAgrees_of_run {α κ : Type} {key : α → κ} {isKept : α → Bool} {less : α → α → Bool}
    {host : List α} {ts ts' : List (Tracked α)} {p p' : Progress κ}
    (hrun : AdditionRun key (emplaceAll less host ts).2 p ts' p') (hinv : Inv key ts' p'.guest)
    (hslate : ∀ t ∈ ts, isKept t.item = true ∨ t.syncStatus = .pendingRemoval)
    (hkept : ∀ x, isKept x = true → key x ∈ host.map key)
    (htotal : ∀ x y, less x y = false → less y x = false → key x = key y) (hs : p'.syncSuccessful = true) :
    p.syncSuccessful = true ∧
      ((∀ t ∈ ts, t.syncStatus = .pendingRemoval → t.syncRetryCount = 0) → RetriesLeft ts' →
        KindAgrees key true host ts' p'.guest) := by
  obtain ⟨hp, hall⟩ := hrun.success hs
  refine ⟨hp, fun hzero hretries => ?_⟩
  have hsync := hrun.synced hzero hall hretries
  refine ⟨fun k => ?_, hsync⟩
  rw [hrun.agrees hinv hslate hkept htotal hsync k]
  simp

theorem inv_addAddresses (loopback : Bool) (hinv : Inv HostIpAddress.toEndpointIpAddress ts p.guest) :
    Inv HostIpAddress.toEndpointIpAddress (addAddresses loopback n ts p).1
      (addAddresses loopback n ts p).2.guest := by
  unfold addAddresses
  cases n.isShown with
  | false => exact hinv
  | true => exact (additionPass_run (syncAddress_step loopback _ _) _ p).inv hinv.emplaceAll

theorem addAddresses_success {loopback : Bool} (hinv : Inv HostIpAddress.toEndpointIpAddress ts p.guest)
    (hslate : ∀ t ∈ ts, n.keepsAddress t.item = true ∨ t.syncStatus = .pendingRemoval)
    (hs : (addAddresses loopback n ts p).2.syncSuccessful = true) :
    p.syncSuccessful = true ∧ ((∀ t ∈ ts, t.syncStatus = .pendingRemoval → t.syncRetryCount = 0) →
        RetriesLeft (addAddresses loopback n ts p).1 →
        KindAgrees HostIpAddress.toEndpointIpAddress n.isShown n.ipAddresses
          (addAddresses loopback n ts p).1 (addAddresses loopback n ts p).2.guest) := by
  have hinv' := inv_addAddresses (n := n) loopback hinv
  unfold addAddresses at hs hinv' ⊢
  cases hshow : n.isShown with
  | false =>
    simp only [hshow] at hs
    refine ⟨hs, fun hzero hretries => ?_⟩
    exact kindAgrees_of_nothing (nothing_left hinv hslate (keeps_nothing hshow).1 hzero hretries)
  | true =>
    simp only [hshow, if_true] at hs hinv' ⊢
    have hrun := additionPass_run (syncAddress_step loopback n.ipAddresses
      (emplaceAll HostIpAddress.less n.ipAddresses ts).1)
      (emplaceAll HostIpAddress.less n.ipAddresses ts).2 p
    exact kindAgrees_of_run hrun hinv' hslate mem_of_keepsAddress HostIpAddress.key_of_not_less hs

theorem inv_addRoutes (hinv : Inv HostRoute.toEndpointRoute rs q.guest) :
    Inv HostRoute.toEndpointRoute (addRoutes n rs q).1 (addRoutes n rs q).2.guest := by
  unfold addRoutes
  cases n.isShown with
  | false => exact hinv
  | true => exact (additionPass_run syncRoute_step _ _).inv hinv.emplaceAll

theorem addRoutes_success (hinv : Inv HostRoute.toEndpointRoute rs q.guest)
    (hslate : ∀ t ∈ rs, n.keepsRoute t.item = true ∨ t.syncStatus = .pendingRemoval)
    (hs : (addRoutes n rs q).2.syncSuccessful = true) :
    q.syncSuccessful = true ∧ ((∀ t ∈ rs, t.syncStatus = .pendingRemoval → t.syncRetryCount = 0) →
        RetriesLeft (addRoutes n rs q).1 →
        KindAgrees HostRoute.toEndpointRoute n.isShown n.routes (addRoutes n rs q).1
          (addRoutes n rs q).2.guest) := by
  have hinv' := inv_addRoutes (n := n) hinv
  unfold addRoutes at hs hinv' ⊢
  cases hshow : n.isShown with
  | false =>
    simp only [hshow] at hs
    refine ⟨hs, fun hzero hretries => ?_⟩
    exact kindAgrees_of_nothing (nothing_left hinv hslate (keeps_nothing hshow).2 hzero hretries)
  | true =>
    simp only [hshow, if_true] at hs hinv' ⊢
    have hrun := additionPass_run syncRoute_step (emplaceAll HostRoute.trackedLess n.routes rs).2
      { q with refreshAllRoutes :=
          q.refreshAllRoutes || (emplaceAll HostRoute.trackedLess n.routes rs).1 }
    have hagrees :=
      kindAgrees_of_run hrun hinv' hslate mem_of_keepsRoute HostRoute.key_of_not_trackedLess hs
    exact hagrees

end Additions

theorem initialPass_guest {κ : Type} (done : Bool) (p : Progress κ) : (initialPass done p).guest = p.guest := by
  obtain ⟨answers, h⟩ := nextAnswer_snd p
  cases done with
  | true => rfl
  | false => simp [initialPass, h]

theorem interfacePass_guest {κ : Type} (n : NetworkSettings) (p : Progress κ) :
    (interfacePass n p).guest = p.guest := by
  obtain ⟨answers, h⟩ := nextAnswer_snd p
  unfold interfacePass
  split
  · rcases hn : nextAnswer p with ⟨o, p₁⟩
    rw [hn] at h
    change p₁ = _ at h
    subst h
    cases o <;> rfl
  · rfl

theorem dnsPass_success {κ : Type} {changed : Bool} {p : Progress κ}
    (h : (dnsPass changed p).syncSuccessful = true) : p.syncSuccessful = true := by
  unfold dnsPass at h
  split at h
  · cases h
  · exact h

/-- What holds between two calls. -/
structure EndpointInv (e : NetworkEndpoint) : Prop where
  addresses : Inv HostIpAddress.toEndpointIpAddress e.ipAddresses e.guestAddresses
  routes : Inv HostRoute.toEndpointRoute e.routes e.guestRoutes

theorem endpointInv_empty : EndpointInv {} :=
  ⟨⟨by simp, by simp⟩, ⟨by simp, by simp⟩⟩

def sync (loopback : Bool) (c : Call) (e : NetworkEndpoint) : NetworkEndpoint :=
  (syncIpStateWithLinux loopback c e).2

/-- Guest and host agree on the interface, and every tracked item is synced. -/
structure Agrees (n : NetworkSettings) (e : NetworkEndpoint) : Prop where
  addresses : KindAgrees HostIpAddress.toEndpointIpAddress n.isShown n.ipAddresses e.ipAddresses
    e.guestAddresses
  routes : KindAgrees HostRoute.toEndpointRoute n.isShown n.routes e.routes e.guestRoutes

section Call

variable {loopback : Bool} {c : Call} {e : NetworkEndpoint}

variable (loopback c e) in
theorem removeAddresses_run :
    ∃ p, p.guest = e.guestAddresses ∧
      RemovalRun HostIpAddress.toEndpointIpAddress c.network.keepsAddress e.ipAddresses p
        (removeAddresses loopback c e).1 (removeAddresses loopback c e).2 := by
  refine ⟨_, ?_, removalPass_run _ _ _ _ _⟩
  rw [interfacePass_guest, initialPass_guest]

variable (c e) in
theorem removeRoutes_run (p : Progress EndpointIpAddress) :
    RemovalRun HostRoute.toEndpointRoute c.network.keepsRoute e.routes (p.withGuest e.guestRoutes)
      (removeRoutes c e p).1 (removeRoutes c e p).2 := removalPass_run _ _ _ _ _

theorem inv_removeAddresses (h : EndpointInv e) :
    Inv HostIpAddress.toEndpointIpAddress (removeAddresses loopback c e).1
      (removeAddresses loopback c e).2.guest := by
  obtain ⟨p, hp, hrun⟩ := removeAddresses_run loopback c e
  exact hrun.inv keepsAddress_congr (hp ▸ h.addresses)

theorem inv_removeRoutes (h : EndpointInv e) (p : Progress EndpointIpAddress) :
    Inv HostRoute.toEndpointRoute (removeRoutes c e p).1 (removeRoutes c e p).2.guest :=
  (removeRoutes_run c e p).inv keepsRoute_congr h.routes

theorem inv_sync (h : EndpointInv e) : EndpointInv (sync loopback c e) where
  addresses := inv_addAddresses loopback (inv_removeAddresses h)
  routes := inv_addRoutes (inv_removeRoutes h _)

theorem agrees_sync (h : EndpointInv e) (hs : (syncIpStateWithLinux loopback c e).1 = true)
    (haddr : RetriesLeft (sync loopback c e).ipAddresses)
    (hroutes : RetriesLeft (sync loopback c e).routes) : Agrees c.network (sync loopback c e) := by
  obtain ⟨p, _, hrem⟩ := removeAddresses_run loopback c e
  have hrem' := removeRoutes_run c e (removeAddresses loopback c e).2
  obtain ⟨hadd, hagreeRoutes⟩ :=
    addRoutes_success (q := (addAddresses loopback c.network (removeAddresses loopback c e).1
      ((removeRoutes c e (removeAddresses loopback c e).2).2.withGuest
        (removeAddresses loopback c e).2.guest)).2.withGuest
          (removeRoutes c e (removeAddresses loopback c e).2).2.guest)
      (inv_removeRoutes h _) hrem'.slated (dnsPass_success hs)
  obtain ⟨hkeptRoutes, hagreeAddresses⟩ :=
    addAddresses_success (p := (removeRoutes c e (removeAddresses loopback c e).2).2.withGuest
      (removeAddresses loopback c e).2.guest) (inv_removeAddresses h) hrem.slated hadd
  obtain ⟨hkeptAddresses, hzeroRoutes⟩ := hrem'.success hkeptRoutes
  obtain ⟨_, hzeroAddresses⟩ := hrem.success hkeptAddresses
  exact ⟨hagreeAddresses hzeroAddresses haddr, hagreeRoutes hzeroRoutes hroutes⟩

end Call

/-- In every run of calls, a call that returns true with no item out of attempts leaves guest and
host in agreement. -/
theorem success_agrees (loopback : Bool) (calls : List Call) :
    Along (sync loopback) (fun e c e' => (syncIpStateWithLinux loopback c e).1 = true →
        RetriesLeft e'.ipAddresses → RetriesLeft e'.routes → Agrees c.network e') calls {} := by
  have hall : Allowed (sync loopback) (fun _ _ => True) calls {} :=
    allowed_of_forall (fun _ _ _ => trivial) _
  refine along_of_step ?_ ?_ endpointInv_empty hall
  · intro c e he _
    exact inv_sync he
  · intro c e he _
    exact agrees_sync he

def oneAddressCall : Call where
  network :=
    { ipAddresses := [{ address := .inet 33597632, prefixLength := 24, preferredLifetime := 4294967295 }]
      routes :=
        [{ family := .inet
           destinationPrefix := .inet 43200
           destinationPrefixLength := 24
           nextHop := .inet 0
           isAutoGeneratedPrefixRoute := true }]
      isHidden := false
      isConnected := true
      pendingIPInterfaceUpdate := true
      disconnected := by simp }
  dnsChanged := false
  answers := List.replicate 8 .succeeded

theorem success_agrees_one_address :
    (syncIpStateWithLinux false oneAddressCall {}).1 = true ∧
      Agrees oneAddressCall.network (sync false oneAddressCall {}) :=
  ⟨by decide, (success_agrees false [oneAddressCall]).1 (by decide)
    (by unfold RetriesLeft; decide) (by unfold RetriesLeft; decide)⟩

end WslPlus.Network.Mirrored
