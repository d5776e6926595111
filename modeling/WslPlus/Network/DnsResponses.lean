import WslPlus.Network.DnsServer

/-!
# The responses for a TCP client

A response is written by a loop that an error ends at any point. The connection stays
registered then, so that the next response is written behind the part of the one before.
-/

namespace WslPlus.Network

open List

namespace DnsServer

variable {s : Server} {conn : Nat}

def Written.Torn (w : Written) : Prop := w.part ≠ [] ∧ w.part ≠ w.response

def writesOf (s : Server) (conn : Nat) : List Written :=
  s.written.filter fun w => w.conn = conn ∧ w.part ≠ []

def Unbroken (s : Server) (conn : Nat) : Prop :=
  ∃ whole rest, writesOf s conn = whole ++ rest ∧ (∀ w ∈ whole, w.part = w.response) ∧
    rest.length ≤ 1 ∧ ∀ w ∈ rest, w.part <+: w.response ∧ w.part ≠ w.response

/-- If a response to the connection was left unfinished, the first write of the next one
fails. -/
def EndsWithTorn : Event → Server → Prop
  | .tcpDnsResponse id response writes, s => ∀ context, s.tcpConnectionContexts id = some context →
      (∃ w ∈ s.written, w.conn = context.conn ∧ w.Torn) →
      bufferSize response = 0 ∨ ∀ n, writes.head? ≠ some (some n)
  | _, _ => True

theorem writeAll_front (rest : Bytes) (writes : List (Option Nat)) : writeAll rest writes <+: rest := by
  induction writes generalizing rest with
  | nil => exact nil_prefix
  | cons write writes ih =>
    cases write with
    | none => exact nil_prefix
    | some n =>
      have hrest := ih (rest.drop (n + 1))
      rw [writeAll]
      conv_rhs => rw [← take_append_drop (n + 1) rest]
      exact (prefix_append_right_inj _).mpr hrest

theorem writeAll_eq_nil_iff {rest : Bytes} {writes : List (Option Nat)} :
    writeAll rest writes = [] ↔ rest = [] ∨ ∀ n, writes.head? ≠ some (some n) := by
  cases writes with
  | nil => simp [writeAll]
  | cons write writes =>
    cases write with
    | none => simp [writeAll]
    | some n =>
      constructor
      · intro hnil
        rw [writeAll, append_eq_nil_iff] at hnil
        left
        simpa using hnil.1
      · rintro (rfl | hfirst)
        · rw [writeAll, take_nil, drop_nil, nil_append]
          exact prefix_nil.mp (writeAll_front [] writes)
        · exact absurd rfl (hfirst n)

theorem Unbroken.nil_of_torn {before after : List Written} {w : Written} (hunbroken : Unbroken s conn)
    (hwrites : writesOf s conn = before ++ w :: after) (htorn : w.Torn) : after = [] := by
  obtain ⟨whole, rest, hsplit, hwhole, hrest, -⟩ := hunbroken
  rw [hsplit, append_eq_append_iff] at hwrites
  obtain ⟨mid, -, hmid⟩ | ⟨mid, hmid, hafter⟩ := hwrites
  · have hlen := congrArg List.length hmid
    simp only [length_append, length_cons] at hlen
    exact length_eq_zero_iff.mp (by omega)
  · cases mid with
    | nil =>
      have hlen := congrArg List.length hafter
      simp only [nil_append, length_cons] at hlen
      exact length_eq_zero_iff.mp (by omega)
    | cons w' mid =>
      obtain ⟨rfl, -⟩ := List.cons.inj hafter
      exact absurd (hwhole w (by simp [hmid])) htorn.2

def Broken (s : Server) : Prop :=
  ∃ conn before w after, writesOf s conn = before ++ w :: after ∧ w.Torn ∧ after ≠ []

def FrontsOnly (s : Server) : Prop := ∀ w ∈ s.written, w.part <+: w.response

theorem written_step (e : Event) (s : Server) :
    (step e s).written = s.written ∨
    ∃ id response writes context, e = .tcpDnsResponse id response writes ∧
      s.tcpConnectionContexts id = some context ∧ (step e s).written = s.written ++
        [⟨context.conn, response, writeAll (response.take (bufferSize response)) writes⟩] := by
  cases e with
  | newTcpConnection registers =>
    left
    simp only [step, handleNewTcpConnection]
    split
    · rfl
    · split <;> rfl
  | newTcpData id bytes =>
    left
    simp only [step]
    split
    · rfl
    · simp only [handleNewTcpData]
      split <;> rfl
  | tcpDnsResponse id response writes =>
    simp only [step, handleTcpDnsResponse]
    split
    · exact .inl rfl
    · rename_i context hctx
      exact .inr ⟨id, response, writes, context, rfl, hctx, rfl⟩

theorem frontsOnly_step (e : Event) (s : Server) (hs : FrontsOnly s) : FrontsOnly (step e s) := by
  intro w hw
  obtain hsame | ⟨id, response, writes, context, rfl, -, hmore⟩ := written_step e s
  · exact hs w (hsame ▸ hw)
  · rw [hmore, mem_append, mem_singleton] at hw
    obtain hold | rfl := hw
    · exact hs w hold
    · exact (writeAll_front _ writes).trans ( take_prefix _ response)

theorem writesOf_congr {s' : Server} (h : s'.written = s.written) (conn : Nat) :
    writesOf s' conn = writesOf s conn := by rw [writesOf, h, writesOf]

theorem writesOf_concat {s' : Server} {w : Written} (h : s'.written = s.written ++ [w]) (conn : Nat) :
    writesOf s' conn = writesOf s conn ++ if w.conn = conn ∧ w.part ≠ [] then [w] else [] := by
  rw [writesOf, h, filter_append, writesOf]
  congr 1
  by_cases hw : w.conn = conn ∧ w.part ≠ []
  · rw [if_pos hw]
    simpa using hw
  · rw [if_neg hw]
    simpa using hw

theorem writesOf_step (e : Event) (s : Server) (conn : Nat) : writesOf s conn <+: writesOf (step e s) conn := by
  obtain hsame | ⟨id, response, writes, context, rfl, -, hmore⟩ := written_step e s
  · exact ⟨[], by rw [append_nil, writesOf_congr hsame]⟩
  · rw [writesOf_concat hmore]
    exact prefix_append _ _

theorem broken_step (e : Event) (s : Server) (hs : Broken s) : Broken (step e s) := by
  obtain ⟨conn, before, w, after, hwrites, htorn, hafter⟩ := hs
  obtain ⟨more, hmore⟩ := writesOf_step e s conn
  refine ⟨conn, before, w, after ++ more, ?_, htorn, by simp [hafter]⟩
  rw [← hmore, hwrites, append_assoc, cons_append]

theorem writeAll_response_eq_nil_iff {response : Bytes} {writes : List (Option Nat)} :
    writeAll (response.take (bufferSize response)) writes = [] ↔
      bufferSize response = 0 ∨ ∀ n, writes.head? ≠ some (some n) := by
  rw [writeAll_eq_nil_iff, take_eq_nil_iff]
  have hzero : response = [] → bufferSize response = 0 := by
    rintro rfl
    rfl
  constructor
  · rintro ((hsize | hnil) | hfirst)
    · exact .inl hsize
    · exact .inl (hzero hnil)
    · exact .inr hfirst
  · rintro (hsize | hfirst)
    · exact .inl (.inl hsize)
    · exact .inr hfirst

theorem Unbroken.concat {s' : Server} {w : Written} (hunbroken : Unbroken s w.conn)
    (hnew : s'.written = s.written ++ [w]) (hfront : w.part <+: w.response) (hpart : w.part ≠ [])
    (hwhole : ∀ v ∈ s.written, v.conn = w.conn → ¬ v.Torn) : Unbroken s' w.conn := by
  have hall : ∀ v ∈ writesOf s w.conn, v.part = v.response := by
    intro v hv
    obtain ⟨hmem, hcond⟩ := mem_filter.mp hv
    simp only [decide_eq_true_eq] at hcond
    by_contra hne
    exact hwhole v hmem hcond.1 ⟨hcond.2, hne⟩
  have hwrites := writesOf_concat hnew w.conn
  rw [if_pos ⟨rfl, hpart⟩] at hwrites
  by_cases hdone : w.part = w.response
  · refine ⟨writesOf s w.conn ++ [w], [], by rw [hwrites, append_nil], ?_, by simp, by simp⟩
    intro v hv
    rw [mem_append, mem_singleton] at hv
    obtain hold | rfl := hv
    · exact hall v hold
    · exact hdone
  · refine ⟨writesOf s w.conn, [w], hwrites, hall, by simp, ?_⟩
    intro v hv
    rw [mem_singleton.mp hv]
    exact ⟨hfront, hdone⟩

theorem unbroken_step (e : Event) (s : Server) (hs : FrontsOnly s ∧ ∀ conn, Unbroken s conn)
    (hcond : EndsWithTorn e s) : FrontsOnly (step e s) ∧ ∀ conn, Unbroken (step e s) conn := by
  refine ⟨frontsOnly_step e s hs.1, ?_⟩
  intro conn
  obtain hsame | ⟨id, response, writes, context, rfl, hctx, hmore⟩ := written_step e s
  · simpa only [Unbroken, writesOf_congr hsame] using hs.2 conn
  · by_cases hadds : context.conn = conn ∧ writeAll (response.take (bufferSize response)) writes ≠ []
    · obtain ⟨rfl, hpart⟩ := hadds
      have hfront := (writeAll_front (response.take (bufferSize response)) writes).trans
        ( take_prefix _ response)
      refine (hs.2 _).concat hmore hfront hpart ?_
      intro v hv hconn htorn
      exact hpart (writeAll_response_eq_nil_iff.mpr (hcond context hctx ⟨v, hv, hconn, htorn⟩))
    · have hwrites := writesOf_concat hmore conn
      rw [if_neg hadds, append_nil] at hwrites
      simpa only [Unbroken, hwrites] using hs.2 conn

theorem broken_of_not (e : Event) (s : Server) (hcond : ¬ EndsWithTorn e s) : Broken (step e s) := by
  cases e with
  | newTcpConnection registers => exact absurd trivial hcond
  | newTcpData id bytes => exact absurd trivial hcond
  | tcpDnsResponse id response writes =>
    simp only [EndsWithTorn] at hcond
    push Not at hcond
    obtain ⟨context, hctx, ⟨w, hw, hconn, htorn⟩, hwrites⟩ := hcond
    have hpart : writeAll (response.take (bufferSize response)) writes ≠ [] := by
      intro hnil
      obtain hsize | hfirst := writeAll_response_eq_nil_iff.mp hnil
      · exact hwrites.1 hsize
      · obtain ⟨n, hn⟩ := hwrites.2
        exact hfirst n hn
    have hmem : w ∈ writesOf s context.conn := by
      rw [writesOf, mem_filter]
      exact ⟨hw, by simpa using ⟨hconn, htorn.1⟩⟩
    obtain ⟨before, after, hsplit⟩ := append_of_mem hmem
    have hmore : (step (.tcpDnsResponse id response writes) s).written = s.written ++
        [⟨context.conn, response, writeAll (response.take (bufferSize response)) writes⟩] := by
      simp only [step, handleTcpDnsResponse, hctx]
    have hnew := writesOf_concat hmore context.conn
    rw [if_pos ⟨rfl, hpart⟩, hsplit, append_assoc, cons_append] at hnew
    exact ⟨context.conn, before, w, _, hnew, htorn, by simp⟩

/-- In a run the responses reach every client whole, with at most a part of one more at the
end, exactly if nothing is written behind a response that was left unfinished. -/
theorem responses_unbroken_iff (events : List Event) :
    (∀ conn, Unbroken (runSteps step events {}) conn) ↔ Allowed step EndsWithTorn events {} := by
  have hfronts : FrontsOnly {} := by simp [FrontsOnly]
  constructor
  · intro hunbroken
    by_contra hcond
    have hbroken : Broken (runSteps step events {}) :=
      inv_of_not_allowed frontsOnly_step (fun e s _ => broken_of_not e s)
        (fun e s _ => broken_step e s) hfronts hcond
    obtain ⟨conn, before, w, after, hwrites, htorn, hafter⟩ := hbroken
    exact hafter ((hunbroken conn).nil_of_torn hwrites htorn)
  · intro hcond
    have hnone : ∀ conn, Unbroken {} conn := fun _ => ⟨[], [], rfl, by simp, by simp, by simp⟩
    exact (inv_runSteps unbroken_step ⟨hfronts, hnone⟩ hcond).2

/-- Of a response `1 2` one byte is written before an error, then the response `3`. -/
theorem response_behind_torn :
    (runSteps step [.newTcpConnection true, .tcpDnsResponse 0 [1, 2] [some 0],
      .tcpDnsResponse 0 [3] [some 0]] {}).written = [⟨0, [1, 2], [1]⟩, ⟨0, [3], [3]⟩] ∧
    ¬ Unbroken (runSteps step [.newTcpConnection true, .tcpDnsResponse 0 [1, 2] [some 0],
      .tcpDnsResponse 0 [3] [some 0]] {}) 0 := by
  refine ⟨rfl, ?_⟩
  intro hunbroken
  have hwrites : writesOf (runSteps step [.newTcpConnection true, .tcpDnsResponse 0 [1, 2] [some 0],
      .tcpDnsResponse 0 [3] [some 0]] {}) 0 = [] ++ ⟨0, [1, 2], [1]⟩ :: [⟨0, [3], [3]⟩] := rfl
  have hnil := hunbroken.nil_of_torn hwrites (by simp [Written.Torn])
  cases hnil

end DnsServer

end WslPlus.Network
