import WslPlus.Lib.Transition
import WslPlus.Plan9.Requests

/-!
# No request leaves the share

Every path that a connection has passed on relative to the root of the share is a list
of components, whatever bytes its client sends. The one exception is `faccessat` on the
root itself, which gets the path of the root.
-/

namespace WslPlus.Plan9

open Program

variable {W : Type} {env : Environment W}

/-- A path argument in order: confined, or the path of the root that `faccessat` is asked about. -/
def Call.Names (c : Call) (p : PathArg) : Prop :=
  (∃ name, p = .name name ∧ Confined name) ∨
    ∃ fd path mode, p = .fdPath fd path ∧ c = .faccessat (.root fd) p mode

theorem Call.IsConfined.names {c : Call} (h : c.IsConfined) {p : PathArg} (hp : p ∈ c.rootPaths) :
    c.Names p := by
  rcases h with h | ⟨fd, path, mode, rfl⟩
  · have hconf := h p hp
    cases p with
    | name name => exact .inl ⟨name, rfl, hconf⟩
    | fdPath fd path => exact hconf.elim
    | procFd fd => exact hconf.elim
  · have hpath : p = .fdPath fd path := List.mem_singleton.mp hp
    subst hpath
    exact .inr ⟨fd, path, mode, rfl, rfl⟩

/-- A connection that has stayed in its shares. -/
structure Session.Inside (s : Session W) : Prop extends s.Guarded where
  trace : ∀ e ∈ s.machine.trace, e.call.IsConfined

theorem deliver_inside (d : Delivery) {s : Session W} (h : s.Inside) : (deliver env d s).Inside := by
  obtain ⟨id, horderly⟩ := exists_deliver_orderly h.toGuarded d
  refine ⟨horderly.guarded, ?_⟩
  obtain ⟨added, htrace, hfine⟩ := horderly.machine.trace
  intro e he
  rw [htrace] at he
  rcases List.mem_append.mp he with he | he
  · exact h.trace e he
  · exact (hfine e he).confined

theorem inside_initial (allowRenegotiate : Bool) (world : W) :
    (Session.initial allowRenegotiate world).Inside :=
  ⟨guarded_initial allowRenegotiate world, fun _ he => (nomatch he)⟩

/-- After any requests the files have confined names, and so have all paths that were passed
on, except that `faccessat` on the root of a share got the path of the root. -/
theorem requests_stay_in_share (env : Environment W) (allowRenegotiate : Bool) (world : W)
    (ds : List Delivery) :
    let s := runSteps (deliver env) ds (Session.initial allowRenegotiate world)
    (∀ fid f, s.fids fid = some (.file f) → Confined f.fileName) ∧
      ∀ e ∈ s.machine.trace, ∀ p ∈ e.call.rootPaths, e.call.Names p := by
  intro s
  have hstep (d : Delivery) (s : Session W) (h : s.Inside) : (deliver env d s).Inside := deliver_inside d h
  have hs : s.Inside := inv_runSteps_of_step hstep (inside_initial allowRenegotiate world)
  refine ⟨fun fid f hf => hs.confined fid (.file f) hf, ?_⟩
  intro e he p hp
  exact (hs.trace e he).names hp

/-- A `Taccess` on the root of a share. -/
def accessRoot : List Delivery :=
  [frame .version 0xFFFF (leBytes 4 8192 ++ frameString protocolVersionW),
    frame .attach 1 (leBytes 4 7 ++ leBytes 4 0xFFFFFFFF ++ frameString [] ++ frameString [] ++ leBytes 4 1000),
    frame .access 2 (leBytes 4 7 ++ leBytes 4 4)].map .ofSocket

theorem access_root_absolute :
    ∃ e ∈ (runSteps (deliver Environment.plain) accessRoot (Session.initial false ())).machine.trace,
      ∃ p ∈ e.call.rootPaths, ¬p.IsConfined := by
  refine ⟨⟨some ⟨1000, 100, [100]⟩, .faccessat (.root ⟨3⟩) (.fdPath ⟨3⟩ [47, 104]) 4⟩, ?_, _,
    List.mem_singleton.mpr rfl, fun h => h⟩
  decide

end WslPlus.Plan9
