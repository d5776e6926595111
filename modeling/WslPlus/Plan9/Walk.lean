import WslPlus.Lib.Transition
import WslPlus.Plan9.WOpen

/-!
# A walk that fails

`Walk` appends a name to the path of its file and takes it back when the child cannot be entered. `HandleWalk`
walks with a copy, which becomes a fid at the very end.
-/

namespace WslPlus.Plan9

open Program

variable {W : Type}

section File

variable {k : Kernel W} {f g : File} {name : Component} {m m' : Machine W}

theorem walk_error (hf : Confined f.fileName) {e : Errno}
    (hwalk : exec (f.walk k name) m = (.ok (.error e, g), m')) :
    g = f := by
  have h := follows_walk hf name m (Kernel.Since.start : k.Since m.world m.world)
  rw [hwalk] at h
  exact h.1

theorem walk_ok (hf : Confined f.fileName) {qid : Qid}
    (hwalk : exec (f.walk k name) m = (.ok (.ok qid, g), m')) :
    Confined g.fileName := by
  have h := follows_walk hf name m (Kernel.Since.start : k.Since m.world m.world)
  rw [hwalk] at h
  rw [h.1.1.path]
  exact hf.pathTo [name]

end File

section Handler

variable {α : Type} {fids : UInt32 → Option Fid} {env : Environment W}

def HasFids (fids : UInt32 → Option Fid) (x : Exchange W) : Prop := x.session.fids = fids

theorem hasFids_read (d : Decoder α) : Keeps (HasFids (W := W) fids) (read d) fun _ => True :=
  Keeps.zoom (Keeps.nothing d) (fun _ _ => trivial) fun _ _ hx _ => hx

theorem hasFids_reply (m : Writer α) : Keeps (HasFids (W := W) fids) (reply m) fun _ => True :=
  Keeps.zoom (Keeps.nothing m) (fun _ _ => trivial) fun _ _ hx _ => hx

theorem hasFids_sys (m : Sys W α) : Keeps (HasFids fids) (sys m) fun _ => True :=
  Keeps.zoom (Keeps.nothing _) (fun _ _ => trivial) fun _ _ hx _ => hx

theorem hasFids_ensureSize (t : MessageType) (extra : Nat) :
    Keeps (HasFids (W := W) fids) (ensureSize t extra) fun _ => True := by
  have hsess : Keeps (HasFids (W := W) fids) session fun _ => True := fun _ hx => ⟨trivial, hx⟩
  exact hsess.bind fun _ _ => hasFids_reply _

theorem hasFids_lookupFid (fid : UInt32) : Keeps (HasFids (W := W) fids) (lookupFid fid) fun _ => True := by
  intro x hx
  rw [exec_lookupFid]
  cases x.session.fids fid with
  | some item => exact ⟨trivial, hx⟩
  | none => exact hx

theorem hasFids_cloneFid (item : Fid) : Keeps (HasFids (W := W) fids) (cloneFid item) fun _ => True := by
  cases item with
  | file f => exact Keeps.pure trivial
  | xattr a => exact Keeps.throw

theorem hasFids_walkNames (f : File) (names : List Component) :
    Keeps (HasFids fids) (walkNames env f names) fun _ => True := by
  induction names generalizing f with
  | nil => exact Keeps.pure trivial
  | cons name rest ih =>
    refine (hasFids_sys _).bind fun r _ => ?_
    obtain ⟨result, g⟩ := r
    cases result with
    | error e => exact Keeps.throw
    | ok qid => exact (hasFids_reply _).bind fun _ _ => ih g

theorem triple_emplaceFid (fid : UInt32) (item : Fid) :
    Triple (HasFids (W := W) fids) (emplaceFid fid item) (fun _ _ => True) fun _ x => HasFids fids x := by
  intro x hx
  rw [emplaceFid, exec_bind]
  simp only [session, exec_ofFunction, andThen]
  cases x.session.fids fid with
  | some _ => exact hx
  | none => exact trivial

theorem triple_handleWalk :
    Triple (HasFids fids) (handleWalk env) (fun _ _ => True) fun _ x => HasFids fids x := by
  refine Triple.bind (hasFids_read _) fun fid => Triple.of_fact fun _ => ?_
  refine Triple.bind (hasFids_read _) fun newfid => Triple.of_fact fun _ => ?_
  refine Triple.bind (hasFids_read _) fun nameCount => Triple.of_fact fun _ => ?_
  refine Triple.bind (hasFids_read _) fun components => Triple.of_fact fun _ => ?_
  refine Triple.bind (hasFids_lookupFid _) fun item => Triple.of_fact fun _ => ?_
  refine Triple.bind (hasFids_cloneFid _) fun newFile => Triple.of_fact fun _ => ?_
  refine Triple.bind (hasFids_ensureSize _ _) fun _ => Triple.of_fact fun _ => ?_
  refine Triple.bind (hasFids_reply _) fun _ => Triple.of_fact fun _ => ?_
  refine Triple.bind (hasFids_walkNames _ _) fun newFile => Triple.of_fact fun _ => ?_
  exact triple_emplaceFid newfid _

end Handler

/-- A walk from any file, by any name, that returns an error leaves the file as it was, if its path consists of
names; all files of a connection are like that, and stay so. A `Twalk` that fails leaves the fids. -/
theorem failed_walk_leaves_no_trace (env : Environment W) :
    (∀ (f : File) name m e g m', Confined f.fileName →
      exec (f.walk env.kernel name) m = (.ok (.error e, g), m') → g = f) ∧
    (∀ (f : File) name m qid g m', Confined f.fileName →
      exec (f.walk env.kernel name) m = (.ok (.ok qid, g), m') → Confined g.fileName) ∧
    (∀ allowRenegotiate world ds fid f,
      (runSteps (deliver env) ds (Session.initial allowRenegotiate world)).fids fid = some (.file f) →
        Confined f.fileName) ∧
    ∀ x e x', exec (handleWalk env) x = (.error e, x') → x'.session.fids = x.session.fids := by
  refine ⟨?_, ?_, ?_, ?_⟩
  · intro f name m e g m' hf hwalk
    exact walk_error hf hwalk
  · intro f name m qid g m' hf hwalk
    exact walk_ok hf hwalk
  · intro allowRenegotiate world ds fid f hfid
    have hstep (d : Delivery) (s : Session W) (h : s.Guarded) : (deliver env d s).Guarded := deliver_guarded h d
    have hguarded : (runSteps (deliver env) ds (Session.initial allowRenegotiate world)).Guarded :=
      inv_runSteps_of_step hstep (guarded_initial allowRenegotiate world)
    exact hguarded.confined fid (.file f) hfid
  · intro x e x' hwalk
    have h : Ends (fun _ _ => True) (fun _ => HasFids x.session.fids) (exec (handleWalk env) x) :=
      triple_handleWalk x rfl
    rw [hwalk] at h
    exact h

end WslPlus.Plan9
