import WslPlus.Lib.Transition
import WslPlus.Plan9.Requests

/-!
# Requests run as the attached user

The identity of an attach is followed through the fids that come from it. A request on
such a fid uses paths only in the user context of that identity, unless it is one of
three requests that use a path outside every user context.
-/

namespace WslPlus.Plan9

open Program

variable {W : Type} {env : Environment W}

/-- A connection with the identity that each of its fids goes back to. -/
structure Followed (W : Type) where
  session : Session W
  origin : UInt32 → Option Identity

def requestOrigin (env : Environment W) (t : Followed W) (d : Delivery) : Option Identity :=
  requestUser env t.origin (messageType d.message) (messageBody d.message)

def follow (env : Environment W) (d : Delivery) (t : Followed W) : Followed W :=
  let s := deliver env d t.session
  { session := s
    origin := fun fid =>
      match s.fids fid with
      | none => none
      | some _ => if (t.session.fids fid).isSome then t.origin fid else requestOrigin env t d }

def Followed.initial (allowRenegotiate : Bool) (world : W) : Followed W :=
  ⟨Session.initial allowRenegotiate world, fun _ => none⟩

def RunsAs (user : Option Identity) (before after : List Event) : Prop :=
  before <+: after ∧
    ∀ e ∈ after.drop before.length, e.call.byPath = true → user.isSome = true ∧ e.context = user

instance RunsAs.decidable (user : Option Identity) (before after : List Event) :
    Decidable (RunsAs user before after) := inferInstanceAs (Decidable (_ ∧ _))

def AsAttached (env : Environment W) (t : Followed W) (d : Delivery) (t' : Followed W) : Prop :=
  RunsAs (requestOrigin env t d) t.session.machine.trace t'.session.machine.trace

instance AsAttached.decidable (t : Followed W) (d : Delivery) (t' : Followed W) :
    Decidable (AsAttached env t d t') := RunsAs.decidable _ _ _

def NoLapse (d : Delivery) (t : Followed W) : Prop :=
  lapses t.session (messageType d.message) (messageBody d.message) = false

instance NoLapse.decidable (d : Delivery) (t : Followed W) : Decidable (NoLapse d t) :=
  inferInstanceAs (Decidable (_ = _))

/-- The origins are the identities that the fids work with. -/
structure Followed.Traced (t : Followed W) : Prop where
  guarded : t.session.Guarded
  origin : ∀ fid, t.origin fid = (t.session.fids fid).map Fid.identity

theorem Followed.Traced.requestOrigin_eq {t : Followed W} (h : t.Traced) (d : Delivery) :
    requestOrigin env t d =
      requestIdentity env t.session (messageType d.message) (messageBody d.message) := by
  rw [requestOrigin, requestIdentity, funext h.origin]

section Step

variable {t : Followed W} (h : t.Traced) {d : Delivery} (hd : NoLapse d t)
include h hd

theorem follow_orderly {id : Identity} (hid : requestOrigin env t d = some id ∨ requestOrigin env t d = none) :
    Orderly id false t.session (follow env d t).session := by
  refine deliver_orderly h.guarded ?_ ?_
  · intro other hother
    rw [← h.requestOrigin_eq] at hother
    rcases hid with hid | hid
    · rw [hid] at hother
      exact (Option.some.inj hother).symm
    · rw [hid] at hother
      cases hother
  · intro hlapse
    have hno : lapses t.session (messageType d.message) (messageBody d.message) = false := hd
    rw [hno] at hlapse
    cases hlapse

theorem follow_new {fid : UInt32} {item : Fid} (hitem : (follow env d t).session.fids fid = some item)
    (hnew : t.session.fids fid = none) : requestOrigin env t d = some item.identity := by
  have hidentity {id : Identity}
      (hid : requestOrigin env t d = some id ∨ requestOrigin env t d = none) : item.identity = id := by
    rw [(follow_orderly h hd hid).identity fid item hitem, Session.identityOr, hnew]
    rfl
  cases horig : requestOrigin env t d with
  | some id => rw [hidentity (.inl horig)]
  | none =>
    have hzero : item.identity = ⟨0, 0, []⟩ := hidentity (.inr horig)
    have hone : item.identity = ⟨1, 0, []⟩ := hidentity (.inr horig)
    rw [hzero] at hone
    cases hone

theorem exists_follow_orderly : ∃ id, Orderly id false t.session (follow env d t).session := by
  cases horig : requestOrigin env t d with
  | some id => exact ⟨id, follow_orderly h hd (.inl horig)⟩
  | none => exact ⟨⟨0, 0, []⟩, follow_orderly h hd (.inr horig)⟩

theorem follow_traced : (follow env d t).Traced := by
  obtain ⟨id, horderly⟩ := exists_follow_orderly h hd
  refine ⟨horderly.guarded, fun fid => ?_⟩
  change (match (follow env d t).session.fids fid with
    | none => none
    | some _ => if (t.session.fids fid).isSome then t.origin fid else requestOrigin env t d) = _
  cases hitem : (follow env d t).session.fids fid with
  | none => rfl
  | some item =>
    cases hold : t.session.fids fid with
    | none => exact follow_new h hd hitem hold
    | some old =>
      change t.origin fid = some item.identity
      rw [h.origin, hold, horderly.identity fid item hitem, Session.identityOr, hold]
      rfl

theorem follow_asAttached : AsAttached env t d (follow env d t) := by
  -- Every identity for which the request is in order is the context of its calls by path.
  have hctx {id : Identity} (horderly : Orderly id false t.session (follow env d t).session) :
      t.session.machine.trace <+: (follow env d t).session.machine.trace ∧
        ∀ e ∈ (follow env d t).session.machine.trace.drop t.session.machine.trace.length,
          e.call.byPath = true → e.context = some id := by
    obtain ⟨added, htrace, hfine⟩ := horderly.machine.trace
    rw [htrace]
    refine ⟨List.prefix_append _ _, ?_⟩
    rw [List.drop_left]
    intro e he hpath
    exact ((hfine e he).context hpath).resolve_right (by decide)
  have hgrows : t.session.machine.trace <+: (follow env d t).session.machine.trace := by
    obtain ⟨id, horderly⟩ := exists_follow_orderly h hd
    exact (hctx horderly).1
  refine ⟨hgrows, fun e he hpath => ?_⟩
  cases horig : requestOrigin env t d with
  | some id => exact ⟨rfl, (hctx (follow_orderly h hd (.inl horig))).2 e he hpath⟩
  | none =>
    have hany (id : Identity) : e.context = some id :=
      (hctx (follow_orderly h hd (.inr horig))).2 e he hpath
    have hzero := hany ⟨0, 0, []⟩
    rw [hany ⟨1, 0, []⟩] at hzero
    cases hzero

end Step

theorem traced_initial (allowRenegotiate : Bool) (world : W) :
    (Followed.initial allowRenegotiate world).Traced :=
  ⟨guarded_initial allowRenegotiate world, fun _ => rfl⟩

/-- In a run without lapses every request uses paths only as the user of its attach. -/
theorem requests_run_as_attached (env : Environment W) (allowRenegotiate : Bool) (world : W)
    (ds : List Delivery) (hds : Allowed (follow env) NoLapse ds (Followed.initial allowRenegotiate world)) :
    Along (follow env) (AsAttached env) ds (Followed.initial allowRenegotiate world) :=
  along_of_step (fun _ _ h hd => follow_traced h hd) (fun _ _ h hd => follow_asAttached h hd)
    (traced_initial allowRenegotiate world) hds

def attached (rest : List (List Byte)) : List Delivery :=
  ([frame .version 0xFFFF (leBytes 4 8192 ++ frameString protocolVersionW),
    frame .attach 1 (leBytes 4 7 ++ leBytes 4 0xFFFFFFFF ++ frameString [] ++ frameString [] ++
      leBytes 4 1000)] ++ rest).map .ofSocket

/-- A walk to a child, which is opened, read and asked for an attribute. -/
theorem attached_walk_open :
    Along (follow Environment.plain) (AsAttached Environment.plain)
      (attached [frame .walk 1 (leBytes 4 7 ++ leBytes 4 8 ++ leBytes 2 1 ++ frameString [97]),
        frame .lopen 1 (leBytes 4 8 ++ leBytes 4 0),
        frame .readdir 1 (leBytes 4 8 ++ leBytes 8 0 ++ leBytes 4 100),
        frame .xattrwalk 1 (leBytes 4 8 ++ leBytes 4 9 ++ frameString [98])]) (Followed.initial false ()) :=
  requests_run_as_attached Environment.plain false () _ (by decide)

/-- An attribute is created, written and clunked; the server sets it as itself. -/
theorem xattr_clunk_without_context :
    ¬Along (follow Environment.plain) (AsAttached Environment.plain)
      (attached [frame .xattrcreate 1 (leBytes 4 7 ++ frameString [98] ++ leBytes 8 1 ++ leBytes 4 0),
        frame .write 1 (leBytes 4 7 ++ leBytes 8 0 ++ leBytes 4 1 ++ [99]),
        frame .clunk 1 (leBytes 4 7)]) (Followed.initial false ()) := by
  decide

end WslPlus.Plan9
