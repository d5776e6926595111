import WslPlus.Network.MirroredSync
import Mathlib.Data.List.Nodup

/-!
# When each mirrored route is tracked once

The set of tracked routes is ordered by a comparison that reads the automatically-generated flag. Neither the
equality of routes nor the order of the routes of the host reads it.
-/

namespace WslPlus.Network

theorem less_field_trans {α : Type} [DecidableEq α] {f : α → α → Bool} {x y z : α} {r r' r'' : Bool}
    (htrans : f x y = true → f y z = true → f x z = true) (hasymm : f x y = true → f y x = false)
    (hrest : r = true → r' = true → r'' = true) (h : (if x = y then r else f x y) = true)
    (h' : (if y = z then r' else f y z) = true) : (if x = z then r'' else f x z) = true := by
  by_cases hxy : x = y
  · subst hxy
    by_cases hxz : x = z
    · rw [if_pos rfl] at h
      rw [if_pos hxz] at h' ⊢
      exact hrest h h'
    · rw [if_neg hxz] at h' ⊢
      exact h'
  · rw [if_neg hxy] at h
    by_cases hyz : y = z
    · subst hyz
      rw [if_neg hxy]
      exact h
    · rw [if_neg hyz] at h'
      have hxz : x ≠ z := by
        intro heq
        subst heq
        rw [hasymm h] at h'
        cases h'
      rw [if_neg hxz]
      exact htrans h h'

section Less

variable {m n k : Nat}

theorem decide_lt_trans (h : decide (m < n) = true) (h' : decide (n < k) = true) : decide (m < k) = true := by
  simp only [decide_eq_true_eq] at *
  omega

theorem decide_lt_asymm (h : decide (m < n) = true) : decide (n < m) = false := by
  simp only [decide_eq_true_eq, decide_eq_false_iff_not] at *
  omega

def SockAddrInet.rank : SockAddrInet → Nat × Int × Int
  | .unspec => (0, 0, 0)
  | .inet a => (2, a, 0)
  | .inet6 a b => (23, a, b)

theorem SockAddrInet.less_iff (a b : SockAddrInet) :
    a.less b = true ↔ a.rank.1 < b.rank.1 ∨ a.rank.1 = b.rank.1 ∧
      (a.rank.2.1 < b.rank.2.1 ∨ a.rank.2.1 = b.rank.2.1 ∧ a.rank.2.2 < b.rank.2.2) := by
  cases a <;> cases b <;> simp [less, family, AddressFamily.less, AddressFamily.toNat, rank]
  split <;> omega

theorem SockAddrInet.less_trans {a b c : SockAddrInet} (h : a.less b = true) (h' : b.less c = true) :
    a.less c = true := by
  rw [less_iff] at *
  omega

theorem SockAddrInet.less_asymm {a b : SockAddrInet} (h : a.less b = true) : b.less a = false := by
  rw [← Bool.not_eq_true]
  rw [less_iff] at *
  omega

theorem EndpointRoute.less_trans {a b c : EndpointRoute} (h : a.less b = true) (h' : b.less c = true) :
    a.less c = true := by
  unfold less at *
  refine less_field_trans decide_lt_trans decide_lt_asymm (fun h h' => ?_) h h'
  refine less_field_trans SockAddrInet.less_trans SockAddrInet.less_asymm (fun h h' => ?_) h h'
  refine less_field_trans SockAddrInet.less_trans SockAddrInet.less_asymm (fun h h' => ?_) h h'
  refine less_field_trans (f := fun (x y : Nat) => decide (x < y)) decide_lt_trans decide_lt_asymm
    (fun h h' => ?_) h h'
  refine less_field_trans (f := fun (x y : Nat) => decide (x < y)) decide_lt_trans decide_lt_asymm
    decide_lt_trans h h'

end Less

namespace Mirrored

open List

theorem HostRoute.trackedLess_trans (a b c : HostRoute) (h : a.trackedLess b = true)
    (h' : b.trackedLess c = true) : a.trackedLess c = true :=
  less_field_trans (f := fun (x y : Nat) => decide (x < y)) decide_lt_trans decide_lt_asymm
    EndpointRoute.less_trans h h'

/-- The order of the tracked set takes equal routes for the same exactly when their flags agree. -/
theorem HostRoute.not_trackedLess_iff {r s : HostRoute} (h : s.toEndpointRoute = r.toEndpointRoute) :
    (r.trackedLess s = false ∧ s.trackedLess r = false) ↔
      s.isAutoGeneratedPrefixRoute = r.isAutoGeneratedPrefixRoute := by
  obtain ⟨route, flag⟩ := r
  obtain ⟨route', flag'⟩ := s
  obtain rfl : route' = route := h
  cases flag <;> cases flag' <;>
    simp [trackedLess, routeClass, isNextHopOnlink, HostRoute.less, EndpointRoute.less] <;> split_ifs <;> simp

section Set

variable {α κ : Type} {key : α → κ} {less : α → α → Bool} {ts : List (Tracked α)} {host : List α}

/-- No two items are equal, and they stand in the order of the set. -/
structure Once (key : α → κ) (less : α → α → Bool) (ts : List (Tracked α)) : Prop where
  nodup : (ts.map fun t => key t.item).Nodup
  ordered : ts.Pairwise fun t t' => less t.item t'.item = true

theorem sublist_emplace (x : α) (ts : List (Tracked α)) : ts.Sublist (emplace less x ts).2 := by
  induction ts with
  | nil => exact nil_sublist _
  | cons t ts ih =>
    simp only [emplace]
    split
    · exact sublist_cons_self _ _
    · split
      · exact ih.cons_cons t
      · exact Sublist.refl _

theorem sublist_emplaceAll (host : List α) (ts : List (Tracked α)) : ts.Sublist (emplaceAll less host ts).2 := by
  induction host generalizing ts with
  | nil => exact Sublist.refl ts
  | cons x host ih => exact (sublist_emplace x ts).trans (ih _)

variable (htrans : ∀ x y z, less x y = true → less y z = true → less x z = true)
include htrans

theorem ordered_emplace (x : α) (h : ts.Pairwise fun t t' => less t.item t'.item = true) :
    (emplace less x ts).2.Pairwise fun t t' => less t.item t'.item = true := by
  induction ts with
  | nil => exact pairwise_singleton _ _
  | cons t ts ih =>
    obtain ⟨hfirst, hrest⟩ := pairwise_cons.mp h
    simp only [emplace]
    split
    next hx =>
      refine pairwise_cons.mpr ⟨?_, h⟩
      intro t' ht'
      rcases mem_cons.mp ht' with rfl | ht'
      · exact hx
      · exact htrans _ _ _ hx (hfirst t' ht')
    next =>
      split
      next hx =>
        refine pairwise_cons.mpr ⟨?_, ih hrest⟩
        intro t' ht'
        rcases of_mem_emplace ht' with ht' | rfl
        · exact hfirst t' ht'
        · exact hx
      next => exact h

/-- In an ordered set an item is found, or it is added. -/
theorem emplace_cases (x : α) (h : ts.Pairwise fun t t' => less t.item t'.item = true) :
    (∃ t ∈ ts, (less x t.item = false ∧ less t.item x = false) ∧ (emplace less x ts).2 = ts) ∨
      (∀ t ∈ ts, less x t.item = true ∨ less t.item x = true) ∧ (emplace less x ts).2 ~ { item := x } :: ts := by
  induction ts with
  | nil => exact .inr ⟨fun t ht => absurd ht not_mem_nil, Perm.refl _⟩
  | cons t ts ih =>
    obtain ⟨hfirst, hrest⟩ := pairwise_cons.mp h
    simp only [emplace]
    cases hx : less x t.item with
    | true =>
      refine .inr ⟨?_, Perm.refl _⟩
      intro t' ht'
      rcases mem_cons.mp ht' with rfl | ht'
      · exact .inl hx
      · exact .inl (htrans _ _ _ hx (hfirst t' ht'))
    | false =>
      cases hx' : less t.item x with
      | false => exact .inl ⟨t, mem_cons_self, ⟨hx, hx'⟩, rfl⟩
      | true =>
        rcases ih hrest with ⟨t', ht', hsame, heq⟩ | ⟨hall, hperm⟩
        · exact .inl ⟨t', mem_cons_of_mem t ht', hsame, congrArg (cons t) heq⟩
        · refine .inr ⟨?_, (hperm.cons t).trans (Perm.swap _ _ _)⟩
          exact forall_mem_cons.mpr ⟨.inr hx', hall⟩

theorem ordered_emplaceAll (host : List α) (h : ts.Pairwise fun t t' => less t.item t'.item = true) :
    (emplaceAll less host ts).2.Pairwise fun t t' => less t.item t'.item = true := by
  induction host generalizing ts with
  | nil => exact h
  | cons x host ih => exact ih (ordered_emplace htrans x h)

/-- The items of the host bring in no equal items exactly when the order of the set finds each of them in the
tracked item it is equal to. -/
theorem nodup_emplaceAll_iff (htotal : ∀ x y, less x y = false → less y x = false → key x = key y)
    (hhost : (host.map key).Nodup) (h : Once key less ts) :
    ((emplaceAll less host ts).2.map fun t => key t.item).Nodup ↔
      ∀ x ∈ host, ∀ t ∈ ts, key t.item = key x → less x t.item = false ∧ less t.item x = false := by
  induction host generalizing ts with
  | nil => exact ⟨fun _ x hx => absurd hx not_mem_nil, fun _ => h.nodup⟩
  | cons x host ih =>
    obtain ⟨hx, hhost⟩ := nodup_cons.mp hhost
    rw [forall_mem_cons]
    change ((emplaceAll less host (emplace less x ts).2).2.map fun t => key t.item).Nodup ↔ _
    rcases emplace_cases htrans x h.ordered with ⟨t, ht, hsame, heq⟩ | ⟨hall, hperm⟩
    · rw [heq, ih hhost h]
      refine ⟨fun hrest => ⟨?_, hrest⟩, fun hrest => hrest.2⟩
      intro t' ht' hkey
      have hkey' : key t'.item = key t.item := hkey.trans (htotal x t.item hsame.1 hsame.2)
      rw [inj_on_of_nodup_map h.nodup ht' ht hkey']
      exact hsame
    · have hkeys := (hperm.map fun t => key t.item).nodup_iff
      by_cases hnew : ∃ t ∈ ts, key t.item = key x
      · obtain ⟨t, ht, hkey⟩ := hnew
        constructor
        · intro hdone
          have hnodup := hkeys.mp (hdone.sublist ((sublist_emplaceAll host _).map _))
          exact absurd (mem_map.mpr ⟨t, ht, hkey⟩) (nodup_cons.mp hnodup).1
        · intro hcond
          have hsame := hcond.1 t ht hkey
          rcases hall t ht with hless | hless
          · rw [hsame.1] at hless
            cases hless
          · rw [hsame.2] at hless
            cases hless
      · have honce : Once key less (emplace less x ts).2 :=
          ⟨hkeys.mpr (nodup_cons.mpr ⟨fun hmem => hnew (mem_map.mp hmem), h.nodup⟩),
            ordered_emplace htrans x h.ordered⟩
        rw [ih hhost honce]
        constructor
        · intro hrest
          exact ⟨fun t ht hkey => absurd ⟨t, ht, hkey⟩ hnew,
            fun y hy t ht => hrest y hy t ((sublist_emplace x ts).subset ht)⟩
        · intro hcond y hy t ht hkey
          rcases of_mem_emplace ht with ht | rfl
          · exact hcond.2 y hy t ht hkey
          · exact absurd (mem_map.mpr ⟨y, hy, hkey.symm⟩) hx

omit htrans

theorem Once.of_items {ts' : List (Tracked α)} (h : Once key less ts)
    (hitems : (ts'.map Tracked.item).Sublist (ts.map Tracked.item)) : Once key less ts' where
  nodup := by
    have hkeys := hitems.map key
    rw [map_map, map_map] at hkeys
    exact h.nodup.sublist hkeys
  ordered := by
    have hordered : (ts.map Tracked.item).Pairwise fun x y => less x y = true := pairwise_map.mpr h.ordered
    exact pairwise_map.mp (hordered.sublist hitems)

variable [DecidableEq κ] {isKept : α → Bool} {ts' : List (Tracked α)} {p p' : Progress κ}

theorem RemovalRun.items (h : RemovalRun key isKept ts p ts' p') :
    (ts'.map Tracked.item).Sublist (ts.map Tracked.item) := by
  induction h with
  | nil => exact Sublist.refl _
  | cons hstep _ ih =>
    cases hstep with
    | kept _ hitem _ =>
      rw [map_cons, ← hitem]
      exact ih.cons_cons _
    | slated _ hitem _ _ _ =>
      rw [map_cons, ← hitem]
      exact ih.cons_cons _
    | removed _ _ _ => exact ih.cons _

theorem RemovalRun.mem_items_of_kept (h : RemovalRun key isKept ts p ts' p') {t : Tracked α} (ht : t ∈ ts)
    (hkept : isKept t.item = true) : t.item ∈ ts'.map Tracked.item := by
  induction h with
  | nil => cases ht
  | cons hstep _ ih =>
    rw [map_append, mem_append]
    rcases mem_cons.mp ht with rfl | ht
    · cases hstep with
      | kept _ hitem _ => exact .inl (mem_singleton.mpr hitem.symm)
      | slated hnot _ _ _ _ => rw [hnot] at hkept; cases hkept
      | removed hnot _ _ => rw [hnot] at hkept; cases hkept
    · exact .inr (ih ht)

omit [DecidableEq κ] in
theorem additionPass_items {sync : Tracked α → Progress κ → Tracked α × Progress κ}
    (hsync : ∀ t p, (sync t p).1.item = t.item) (ts : List (Tracked α)) (p : Progress κ) :
    (additionPass sync ts p).1.map Tracked.item = ts.map Tracked.item := by
  induction ts generalizing p with
  | nil => rfl
  | cons t ts ih => exact congrArg₂ cons (hsync t p) (ih _)

end Set

theorem settle_item {α κ : Type} (b : Bool) (t : Tracked α) (p : Progress κ) : (settle b t p).1.item = t.item := by
  cases b <;> rfl

theorem syncRoute_item (t : Tracked HostRoute) (p : Progress EndpointRoute) : (syncRoute t p).1.item = t.item := by
  have hsent : ∀ r other, r ≠ .remove → other ≠ .remove →
      (sendEither HostRoute.toEndpointRoute r other t p).2.1.item = t.item := by
    intro r other hr hother
    exact (sendEither_pushed hr hother rfl).2.1
  have hadd := hsent .add .update (by decide) (by decide)
  have hupdate := hsent .update .add (by decide) (by decide)
  unfold syncRoute
  split
  · exact (settle_item _ _ _).trans hadd
  · split
    · split
      next heq => rw [heq] at hupdate; exact (settle_item _ _ _).trans hupdate
      next heq => rw [heq] at hupdate; exact (settle_item _ _ _).trans hupdate
    · exact settle_item _ _ _
  · exact (settle_item _ _ _).trans hupdate
  · rfl

/-- A call with the routes of the host as the set they are in. -/
structure RouteSetCall extends Call where
  distinct : (network.routes.map HostRoute.toEndpointRoute).Nodup

def FlagsKept (c : RouteSetCall) (e : NetworkEndpoint) : Prop :=
  c.network.isShown = true → ∀ r ∈ c.network.routes, ∀ t ∈ e.routes,
    t.item.toEndpointRoute = r.toEndpointRoute →
      t.item.isAutoGeneratedPrefixRoute = r.isAutoGeneratedPrefixRoute

section Call

variable {loopback : Bool} {c : RouteSetCall} {e : NetworkEndpoint}

theorem keepsRoute_of_mem {n : NetworkSettings} {r s : HostRoute} (hshow : n.isShown = true) (hr : r ∈ n.routes)
    (h : s.toEndpointRoute = r.toEndpointRoute) : n.keepsRoute s = true := by
  simp only [NetworkSettings.isShown, Bool.and_eq_true] at hshow
  simp only [NetworkSettings.keepsRoute, hshow.1, Bool.true_and, contains, any_eq_true]
  exact ⟨r, hr, by simp [HostRoute.less, h, EndpointRoute.less]⟩

/-- The tracked routes after a call, without what the passes write into them. -/
theorem sync_items (loopback : Bool) (c : Call) (e : NetworkEndpoint) :
    ∃ p ts, RemovalRun HostRoute.toEndpointRoute c.network.keepsRoute e.routes p ts
        (removeRoutes c e (removeAddresses loopback c e).2).2 ∧
      (sync loopback c e).routes.map Tracked.item =
        ((if c.network.isShown then (emplaceAll HostRoute.trackedLess c.network.routes ts).2 else ts).map
          Tracked.item) := by
  refine ⟨_, _, removeRoutes_run c e _, ?_⟩
  simp only [sync, syncIpStateWithLinux, addRoutes]
  split
  · exact additionPass_items syncRoute_item _ _
  · rfl

theorem nodup_sync_iff (h : Once HostRoute.toEndpointRoute HostRoute.trackedLess e.routes) :
    ((sync loopback c.toCall e).routes.map fun t => t.item.toEndpointRoute).Nodup ↔ FlagsKept c e := by
  obtain ⟨p, ts, hrun, hitems⟩ := sync_items loopback c.toCall e
  have hts := h.of_items hrun.items
  have hkeys := congrArg (map HostRoute.toEndpointRoute) hitems
  rw [map_map, map_map] at hkeys
  change (map (HostRoute.toEndpointRoute ∘ Tracked.item) (sync loopback c.toCall e).routes).Nodup ↔ _
  rw [hkeys]
  cases hshow : c.network.isShown with
  | false => exact ⟨fun _ hs => absurd (hshow.symm.trans hs) Bool.false_ne_true, fun _ => hts.nodup⟩
  | true =>
    refine (nodup_emplaceAll_iff HostRoute.trackedLess_trans HostRoute.key_of_not_trackedLess c.distinct
      hts).trans ?_
    constructor
    · intro hcond _ r hr t ht hkey
      obtain ⟨t', ht', hitem⟩ := mem_map.mp (hrun.mem_items_of_kept ht (keepsRoute_of_mem hshow hr hkey))
      have hsame := hcond r hr t' ht' (by rw [hitem]; exact hkey)
      rw [hitem] at hsame
      exact (HostRoute.not_trackedLess_iff hkey).mp hsame
    · intro hflags r hr t ht hkey
      obtain ⟨t', ht', hitem⟩ := mem_map.mp (hrun.items.subset (mem_map_of_mem ht))
      have hflag := hflags hshow r hr t' ht' (by rw [hitem]; exact hkey)
      rw [hitem] at hflag
      exact (HostRoute.not_trackedLess_iff hkey).mpr hflag

theorem once_sync (h : Once HostRoute.toEndpointRoute HostRoute.trackedLess e.routes) (hflags : FlagsKept c e) :
    Once HostRoute.toEndpointRoute HostRoute.trackedLess (sync loopback c.toCall e).routes := by
  refine ⟨(nodup_sync_iff h).mpr hflags, ?_⟩
  obtain ⟨p, ts, hrun, hitems⟩ := sync_items loopback c.toCall e
  have hts := (h.of_items hrun.items).ordered
  rw [← pairwise_map (f := Tracked.item) (R := fun a b => HostRoute.trackedLess a b = true), hitems, pairwise_map]
  split
  · exact ordered_emplaceAll HostRoute.trackedLess_trans _ hts
  · exact hts

end Call

/-- Along every run of calls, the tracked routes are without equal ones exactly as long as no call shows a
tracked route with another flag. -/
theorem routes_tracked_once_iff (loopback : Bool) (calls : List RouteSetCall) :
    Along (fun c => sync loopback c.toCall)
        (fun _ _ e' => (e'.routes.map fun t => t.item.toEndpointRoute).Nodup) calls {} ↔
      Allowed (fun c => sync loopback c.toCall) FlagsKept calls {} := by
  refine along_iff_allowed ?_ (fun c e he => nodup_sync_iff he) ⟨nodup_nil, Pairwise.nil⟩
  intro c e he hflags
  exact once_sync he hflags

def onlinkRouteCall (isAutoGeneratedPrefixRoute : Bool) : RouteSetCall where
  network :=
    { ipAddresses := []
      routes :=
        [{ family := .inet
           destinationPrefix := .inet 43200
           destinationPrefixLength := 24
           nextHop := .inet 0
           isAutoGeneratedPrefixRoute := isAutoGeneratedPrefixRoute }]
      isHidden := false
      isConnected := true
      pendingIPInterfaceUpdate := false
      disconnected := nofun }
  dnsChanged := false
  answers := replicate 4 .succeeded
  distinct := nodup_singleton _

/-- A route that is automatically generated in the first call only is tracked twice. -/
theorem route_tracked_twice :
    ¬ ((runSteps (fun c => sync false c.toCall) [onlinkRouteCall true, onlinkRouteCall false] {}).routes.map
      fun t => t.item.toEndpointRoute).Nodup := by
  decide

end Mirrored

end WslPlus.Network
