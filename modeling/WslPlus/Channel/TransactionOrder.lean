import WslPlus.Channel.Transactions

/-!
# Replies reach the transaction they belong to

The replies in flight to the current transaction are those that come next in it, in order, and all
other messages are older. The step of a transaction is a 32-bit number, so after `2 ^ 32 - 2`
replies it comes round to the step that stands for no transaction.
-/

namespace WslPlus.Channel.Dialogue

open List

section Pairing

variable {s : Dialogue} {i p : Nat}

def NotServing (s : Dialogue) (i : Nat) : Prop := ∀ t o, s.serving = some (t, o) → o.transaction ≠ i

/-- How far the current transaction has got: its request is not sent, or in flight, or was read, and
then the replies in flight are those that come next. -/
inductive Matched (s : Dialogue) (i : Nat) : Nat → Prop where
  | unsent (hrequests : labels i s.requests = []) (hreplies : labels i s.replies = []) (hserving : s.NotServing i) :
      Matched s i 1
  | sent (hrequests : labels i s.requests = [⟨i, 1⟩]) (hreplies : labels i s.replies = [])
      (hserving : s.NotServing i) : Matched s i 2
  | read {p : Nat} (n : Nat) (hp : 2 ≤ p) (hrequests : labels i s.requests = [])
      (hreplies : labels i s.replies = (List.range' p n).map (Origin.mk i))
      (hserving : ∀ t o, s.serving = some (t, o) → o.transaction = i → o.place = p + n) : Matched s i p

structure Paired (s : Dialogue) : Prop where
  seed : s.initiator.transactionIdSeed = .ofNat s.started
  requests : ∀ m ∈ s.requests, RequestOk s.started m
  replies : ∀ m ∈ s.replies, ReplyOk s.started m
  serving : ∀ t o, s.serving = some (t, o) →
    o.transaction < s.started ∧ t = ⟨.ofNat o.transaction, .ofNat o.place⟩
  current : ∀ t o, s.current = some (t, o) → o.transaction + 1 = s.started ∧ 1 ≤ o.place ∧ o.place ≤ 2 ^ 32 ∧
    t = ⟨.ofNat o.transaction, .ofNat o.place⟩ ∧ s.Matched o.transaction o.place
  orderly : s.Orderly

theorem Paired.initial : Paired initial where
  seed := rfl
  requests := by intro m hm; cases hm
  replies := by intro m hm; cases hm
  serving := by intro t o h; cases h
  current := by intro t o h; cases h
  orderly := ⟨(by intro r hr; cases hr), (by intro e he; cases he)⟩

variable {s' : Dialogue}

theorem Matched.kept (h : s.Matched i p) (hreqs : labels i s'.requests = labels i s.requests)
    (hreplies : labels i s'.replies = labels i s.replies)
    (hserving : s'.serving = s.serving ∨ s'.NotServing i) : s'.Matched i p := by
  have hnot (hnot : s.NotServing i) : s'.NotServing i := by
    rcases hserving with heq | hnot'
    · rw [NotServing, heq]
      exact hnot
    · exact hnot'
  cases h with
  | unsent hreq hrep hserv => exact .unsent (hreqs.trans hreq) (hreplies.trans hrep) (hnot hserv)
  | sent hreq hrep hserv => exact .sent (hreqs.trans hreq) (hreplies.trans hrep) (hnot hserv)
  | read n hp hreq hrep hserv =>
    refine .read n hp (hreqs.trans hreq) (hreplies.trans hrep) ?_
    rcases hserving with heq | hnot'
    · rw [heq]
      exact hserv
    · intro t o hto hi
      exact absurd hi (hnot' t o hto)

variable {o : Origin}

theorem Matched.reply_taken (h : s.Matched i p) {tail : List Origin}
    (hlabels : labels i s.replies = o :: tail) : o = ⟨i, p⟩ ∧ ∀ s' : Dialogue, s'.requests = s.requests →
      s'.serving = s.serving → labels i s'.replies = tail → s'.Matched i (p + 1) := by
  cases h with
  | unsent hreqs hreplies hserving =>
    rw [hreplies] at hlabels
    cases hlabels
  | sent hreqs hreplies hserving =>
    rw [hreplies] at hlabels
    cases hlabels
  | read n hp hreqs hreplies hserving =>
    rw [hreplies] at hlabels
    cases n with
    | zero => cases hlabels
    | succ n =>
      rw [List.range'_succ, map_cons] at hlabels
      obtain ⟨rfl, rfl⟩ := List.cons.inj hlabels
      refine ⟨rfl, ?_⟩
      intro s' hreq hserv hrep
      refine .read n (by omega) (by rw [hreq, hreqs]) hrep ?_
      intro t o hto hi
      rw [hserv] at hto
      have := hserving t o hto hi
      omega

theorem Matched.served (h : s.Matched i p) {taken : List Labelled}
    (hlabels : labels i s.requests = labels i taken ++ labels i s'.requests) (hsame : s'.replies = s.replies)
    (hnew : ∀ t o, s'.serving = some (t, o) → o.transaction = i → o.place = 2 ∧ labels i taken ≠ []) :
    s'.Matched i p := by
  have hnot (hnil : labels i taken = []) : s'.NotServing i := by
    intro t o hto hi
    exact (hnew t o hto hi).2 hnil
  cases h with
  | unsent hreqs hreplies hserving =>
    rw [hreqs] at hlabels
    obtain ⟨htaken, hrest⟩ := append_eq_nil_iff.mp hlabels.symm
    exact .unsent hrest (by rw [hsame, hreplies]) (hnot htaken)
  | sent hreqs hreplies hserving =>
    rw [hreqs] at hlabels
    cases htaken : labels i taken with
    | nil =>
      rw [htaken, nil_append] at hlabels
      exact .sent hlabels.symm (by rw [hsame, hreplies]) (hnot htaken)
    | cons o tail =>
      rw [htaken, cons_append] at hlabels
      obtain ⟨-, hrest⟩ := append_eq_nil_iff.mp (List.cons.inj hlabels).2.symm
      refine .read 0 (Nat.le_refl 2) hrest (by rw [hsame, hreplies]; rfl) ?_
      exact fun t o hto hi => (hnew t o hto hi).1
  | read n hp hreqs hreplies hserving =>
    rw [hreqs] at hlabels
    obtain ⟨htaken, hrest⟩ := append_eq_nil_iff.mp hlabels.symm
    refine .read n hp hrest (by rw [hsame, hreplies]) ?_
    exact fun t o hto hi => absurd htaken (hnew t o hto hi).2

theorem Matched.replied (h : s.Matched i p) {t t' : Transaction}
    (hserving : s.serving = some (t, o)) (hreqs : s'.requests = s.requests)
    (hserving' : s'.serving = some (t', o.next))
    (hlabels : labels i s'.replies = labels i s.replies ++ if o.transaction = i then [o] else []) :
    s'.Matched i p := by
  by_cases hi : o.transaction = i
  · rw [if_pos hi] at hlabels
    cases h with
    | unsent _ _ hnot => exact absurd hi (hnot t o hserving)
    | sent _ _ hnot => exact absurd hi (hnot t o hserving)
    | read n hp hreq hreplies hplace =>
      have hplace := hplace t o hserving hi
      refine .read (n + 1) hp (by rw [hreqs, hreq]) ?_ ?_
      · rw [hlabels, hreplies, List.range'_concat, map_append]
        refine congrArg _ ?_
        rw [map_singleton, Nat.one_mul, ← hplace, ← hi]
      · intro t'' o' hto _
        rw [hserving'] at hto
        cases hto
        simp only [Origin.next]
        omega
  · rw [if_neg hi, append_nil] at hlabels
    refine h.kept (by rw [hreqs]) hlabels (.inr ?_)
    intro t'' o' hto
    rw [hserving'] at hto
    cases hto
    exact hi

variable {m : Labelled}

theorem RequestOk.mono {k n : Nat} (h : RequestOk k m) (hle : k ≤ n) : RequestOk n m := by
  cases hcont : m.content with
  | none =>
    simp only [RequestOk, hcont] at h ⊢
    exact h
  | some o =>
    simp only [RequestOk, hcont] at h ⊢
    exact ⟨Nat.lt_of_lt_of_le h.1 hle, h.2⟩

theorem ReplyOk.mono {k n : Nat} (h : ReplyOk k m) (hle : k ≤ n) : ReplyOk n m := by
  cases hcont : m.content with
  | none =>
    simp only [ReplyOk, hcont] at h ⊢
    exact h
  | some o =>
    simp only [ReplyOk, hcont] at h ⊢
    exact ⟨Nat.lt_of_lt_of_le h.1 hle, h.2⟩

theorem RequestOk.lt {k : Nat} (h : RequestOk k m) (hm : m.content = some o) : o.transaction < k := by
  simp only [RequestOk, hm] at h
  exact h.1

theorem ReplyOk.lt {k : Nat} (h : ReplyOk k m) (hm : m.content = some o) : o.transaction < k := by
  simp only [ReplyOk, hm] at h
  exact h.1

section

variable (h : s.Paired)
include h

theorem Paired.start : s.start.Paired where
  seed := by
    simp only [Dialogue.start, Transaction.start, h.seed]
    exact ofNat_succ s.started
  requests := fun m hm => (h.requests m hm).mono (Nat.le_succ _)
  replies := fun m hm => (h.replies m hm).mono (Nat.le_succ _)
  serving := by
    intro t o hto
    obtain ⟨hlt, ht⟩ := h.serving t o hto
    exact ⟨Nat.lt_succ_of_lt hlt, ht⟩
  current := by
    intro t o hto
    simp only [Dialogue.start, Transaction.start, Option.some.injEq, Prod.mk.injEq] at hto
    obtain ⟨rfl, rfl⟩ := hto
    refine ⟨rfl, Nat.le_refl _, Nat.one_le_two_pow, by rw [h.seed]; rfl, .unsent ?_ ?_ ?_⟩
    · exact labels_eq_nil fun m hm o ho => Nat.ne_of_lt ((h.requests m hm).lt ho)
    · exact labels_eq_nil fun m hm o ho => Nat.ne_of_lt ((h.replies m hm).lt ho)
    · exact fun t o hto => Nat.ne_of_lt (h.serving t o hto).1
  orderly := ⟨h.orderly.returned, h.orderly.failures⟩

theorem Paired.request (header : MessageHeader) : (s.request header).Paired := by
  rw [Dialogue.request]
  split
  · rename_i t o hcurrent
    split
    · rename_i hplace
      obtain ⟨hstart, hone, hle, rfl, hmatch⟩ := h.current t o hcurrent
      have hstep : UInt32.ofNat o.place = stepRequest := by rw [hplace]; rfl
      simp only [Transaction.send, SocketChannel.sendMessage, hstep, if_neg (show stepRequest ≠ stepNone by decide)]
      refine ⟨h.seed, ?_, h.replies, h.serving, ?_, ⟨h.orderly.returned, h.orderly.failures⟩⟩
      · intro m hm
        rcases mem_append.mp hm with hm | hm
        · exact h.requests m hm
        · rw [mem_singleton.mp hm]
          exact ⟨Nat.lt_of_lt_of_eq (Nat.lt_succ_self _) hstart, hplace, rfl, rfl⟩
      · intro t' o' hto
        simp only [Option.some.injEq, Prod.mk.injEq] at hto
        obtain ⟨rfl, rfl⟩ := hto
        simp only [Origin.next, hplace]
        refine ⟨hstart, by omega, by decide, rfl, ?_⟩
        rw [hplace] at hmatch
        cases hmatch with
        | unsent hreqs hreplies hserving =>
          refine .sent ?_ hreplies hserving
          rw [labels_append, hreqs, labels_cons_eq rfl rfl]
          rw [← hplace]
          rfl
        | read n hp => omega
    · exact h
  · exact h

theorem Paired.receive {kind : MessageKind} {arrived : Nat} (hrecent : Recent (.receive kind arrived) s)
    (hwrap : Unwrapped (.receive kind arrived) s) : (s.receive kind arrived).Paired := by
  rw [Dialogue.receive]
  split
  · rename_i t o hcurrent
    split
    · exact h
    · rename_i hplace
      obtain ⟨hstart, hone, hle, rfl, hmatch⟩ := h.current t o hcurrent
      simp only [Unwrapped, hcurrent, Option.all_some, bne_iff_ne] at hwrap
      have hlt : o.place < 2 ^ 32 := by
        rcases Nat.lt_or_eq_of_le hle with hlt | heq
        · exact hlt
        · rw [heq] at hwrap
          exact absurd rfl hwrap
      have hreq : UInt32.ofNat o.place ≠ stepRequest := by
        intro heq
        have hnat := congrArg UInt32.toNat heq
        rw [UInt32.toNat_ofNat_of_lt' hlt] at hnat
        exact hplace hnat
      have hlast : s.started - 1 = o.transaction := by omega
      simp only [Recent, hlast] at hrecent
      have hsplit := take_append_drop arrived s.replies
      have hfirst : ∀ o' rest, labels o.transaction (s.replies.take arrived) = o' :: rest →
          o' = ⟨o.transaction, o.place⟩ := by
        intro o' rest hlabels
        have hall : labels o.transaction s.replies =
            o' :: (rest ++ labels o.transaction (s.replies.drop arrived)) := by
          rw [← cons_append, ← hlabels, ← labels_append, hsplit]
        exact (hmatch.reply_taken hall).1
      obtain ⟨r, rest, heq, hout⟩ := receiveMessage_reply s.initiator kind hwrap hreq
        (fun m hm => hstart ▸ h.replies m (mem_of_mem_take hm)) hrecent hfirst
      simp only [heq]
      obtain ⟨taken, htaken⟩ := hout.suffix
      have hreplies : ∀ m ∈ rest ++ s.replies.drop arrived, ReplyOk s.started m := by
        intro m hm
        refine h.replies m ?_
        rw [← hsplit, htaken, append_assoc]
        exact mem_append_right taken hm
      cases r with
      | error e =>
        refine ⟨h.seed, h.requests, hreplies, h.serving, ?_, h.orderly.returned, ?_⟩
        · intro t' o' hto
          cases hto
        · intro e' he'
          rcases mem_append.mp he' with he' | he'
          · exact h.orderly.failures e' he'
          · rw [mem_singleton.mp he']
            exact hout.error e rfl
      | ok m =>
        obtain ⟨hcont, hlabels⟩ := hout.ok m rfl
        refine ⟨h.seed, h.requests, hreplies, h.serving, ?_, ?_, h.orderly.failures⟩
        · intro t' o' hto
          simp only [Option.some.injEq, Prod.mk.injEq] at hto
          obtain ⟨rfl, rfl⟩ := hto
          have hall : labels o.transaction s.replies = ⟨o.transaction, o.place⟩ ::
              labels o.transaction (rest ++ s.replies.drop arrived) := by
            rw [labels_append, ← cons_append, ← hlabels, ← labels_append, hsplit]
          refine ⟨hstart, Nat.succ_pos _, hlt, ?_, (hmatch.reply_taken hall).2 _ rfl rfl rfl⟩
          rw [Transaction.received, if_neg hreq]
          exact congrArg _ (ofNat_succ o.place)
        · intro r' hr'
          rcases mem_append.mp hr' with hr' | hr'
          · exact h.orderly.returned r' hr'
          · rw [mem_singleton.mp hr']
            exact hcont
  · exact h

theorem Paired.serve (kind : MessageKind) (arrived : Nat) : (s.serve kind arrived).Paired := by
  obtain ⟨r, rest, heq, hreading⟩ := receiveMessage_request s.responder kind (s.requests.take arrived)
    Transaction.toReceive.id
  have hsplit := take_append_drop arrived s.requests
  obtain ⟨taken, htaken⟩ := hreading.suffix
  have hreqs : ∀ m ∈ rest ++ s.requests.drop arrived, RequestOk s.started m := by
    intro m hm
    refine h.requests m ?_
    rw [← hsplit, htaken, append_assoc]
    exact mem_append_right taken hm
  have hlabels (i : Nat) : labels i s.requests = labels i taken ++ labels i (rest ++ s.requests.drop arrived) := by
    rw [← labels_append, ← append_assoc, ← htaken, hsplit]
  simp only [Dialogue.serve, Transaction.toReceive] at heq ⊢
  simp only [heq]
  cases r with
  | error e =>
    refine ⟨h.seed, hreqs, h.replies, ?_, ?_, h.orderly.returned, ?_⟩
    · intro t o hto
      cases hto
    · intro t o hto
      obtain ⟨hstart, hone, hle, ht, hmatch⟩ := h.current t o hto
      refine ⟨hstart, hone, hle, ht, hmatch.served (hlabels o.transaction) rfl ?_⟩
      intro t' o' hto'
      cases hto'
    · intro e' he'
      rcases mem_append.mp he' with he' | he'
      · exact h.orderly.failures e' he'
      · rw [mem_singleton.mp he']
        exact hreading.error e rfl
  | ok m =>
    obtain ⟨hstep, before, hbefore⟩ := hreading.ok m rfl
    have hmem : m ∈ s.requests := by
      refine mem_of_mem_take (i := arrived) ?_
      rw [hbefore]
      exact mem_append_right before mem_cons_self
    obtain ⟨o, hcont, hlt, hplace, hid⟩ : ∃ o, m.content = some o ∧ o.transaction < s.started ∧ o.place = 1 ∧
        m.header.transactionId = .ofNat o.transaction := by
      have hok := h.requests m hmem
      cases hcont : m.content with
      | none =>
        simp only [RequestOk, hcont, hstep] at hok
        cases hok
      | some o =>
        simp only [RequestOk, hcont] at hok
        exact ⟨o, rfl, hok.1, hok.2.1, hok.2.2.2⟩
    have hlabels (i : Nat) : labels i s.requests =
        labels i (before ++ [m]) ++ labels i (rest ++ s.requests.drop arrived) := by
      rw [← labels_append, ← append_assoc, append_assoc before, singleton_append, ← hbefore, hsplit]
    have hserving {t : Transaction} {o' : Origin} (hto : (m.content.map fun o =>
        (Transaction.received ⟨0, stepRequest⟩ m, o.next)) = some (t, o')) :
        t = ⟨.ofNat o.transaction, .ofNat 2⟩ ∧ o' = ⟨o.transaction, 2⟩ := by
      rw [hcont, Option.map_some, Option.some.injEq, Prod.mk.injEq] at hto
      obtain ⟨rfl, rfl⟩ := hto
      rw [Transaction.received, if_pos rfl, hid, Origin.next, hplace]
      exact ⟨rfl, rfl⟩
    refine ⟨h.seed, hreqs, h.replies, ?_, ?_, h.orderly.returned, h.orderly.failures⟩
    · intro t o' hto
      obtain ⟨rfl, rfl⟩ := hserving hto
      exact ⟨hlt, rfl⟩
    · intro t o' hto
      obtain ⟨hstart, hone, hle, ht, hmatch⟩ := h.current t o' hto
      refine ⟨hstart, hone, hle, ht, hmatch.served (hlabels o'.transaction) rfl ?_⟩
      intro t' o'' hto' hi
      obtain ⟨-, rfl⟩ := hserving hto'
      refine ⟨rfl, ?_⟩
      rw [labels_append, labels_cons_eq hcont hi]
      exact append_ne_nil_of_right_ne_nil _ (cons_ne_nil _ _)

theorem Paired.reply (header : MessageHeader) : (s.reply header).Paired := by
  rw [Dialogue.reply]
  split
  · rename_i t o hserving
    obtain ⟨hlt, rfl⟩ := h.serving t o hserving
    have hsent : ∃ c m, s.responder.sendMessage (.ofNat o.place) (.ofNat o.transaction) ⟨header, some o⟩ = (c, m) ∧
        m.content = some o ∧ ReplyOk s.started m := by
      rw [SocketChannel.sendMessage]
      split
      · rename_i hnone
        exact ⟨_, _, rfl, rfl, hlt, hnone.symm, fun hne => absurd rfl hne⟩
      · exact ⟨_, _, rfl, rfl, hlt, rfl, fun _ => rfl⟩
    obtain ⟨c, m, heq, hcont, hok⟩ := hsent
    simp only [Transaction.send, heq]
    refine ⟨h.seed, h.requests, ?_, ?_, ?_, ⟨h.orderly.returned, h.orderly.failures⟩⟩
    · intro m' hm'
      rcases mem_append.mp hm' with hm' | hm'
      · exact h.replies m' hm'
      · rw [mem_singleton.mp hm']
        exact hok
    · intro t' o' hto
      simp only [Option.some.injEq, Prod.mk.injEq] at hto
      obtain ⟨rfl, rfl⟩ := hto
      exact ⟨hlt, congrArg _ (ofNat_succ o.place)⟩
    · intro t' o' hto
      obtain ⟨hstart, hone, hle, ht, hmatch⟩ := h.current t' o' hto
      refine ⟨hstart, hone, hle, ht, hmatch.replied hserving rfl rfl ?_⟩
      rw [labels_append]
      by_cases hi : o.transaction = o'.transaction
      · rw [labels_cons_eq hcont hi, if_pos hi]
        rfl
      · rw [labels_cons_ne hcont hi, if_neg hi]
        rfl
  · exact h

theorem Paired.kept {op : Op} (hrecent : Recent op s) (hwrap : Unwrapped op s) :
    (step op s).Paired := by
  have hnotice (header : MessageHeader) (i : Nat) (l : List Labelled) :
      labels i (l ++ [⟨header, none⟩]) = labels i l := by
    rw [labels_append, labels_cons_none rfl]
    exact append_nil _
  cases op with
  | start => exact h.start
  | request header => exact h.request header
  | receive kind arrived => exact h.receive hrecent hwrap
  | serve kind arrived => exact h.serve kind arrived
  | reply header => exact h.reply header
  | notifyResponder header =>
    refine ⟨h.seed, ?_, h.replies, h.serving, ?_, ⟨h.orderly.returned, h.orderly.failures⟩⟩
    · intro m hm
      rcases mem_append.mp hm with hm | hm
      · exact h.requests m hm
      · rw [mem_singleton.mp hm]
        rfl
    · intro t o hto
      obtain ⟨hstart, hone, hle, ht, hmatch⟩ := h.current t o hto
      exact ⟨hstart, hone, hle, ht, hmatch.kept (hnotice _ _ _) rfl (.inl rfl)⟩
  | notifyInitiator header =>
    refine ⟨h.seed, h.requests, ?_, h.serving, ?_, ⟨h.orderly.returned, h.orderly.failures⟩⟩
    · intro m hm
      rcases mem_append.mp hm with hm | hm
      · exact h.replies m hm
      · rw [mem_singleton.mp hm]
        rfl
    · intro t o hto
      obtain ⟨hstart, hone, hle, ht, hmatch⟩ := h.current t o hto
      exact ⟨hstart, hone, hle, ht, hmatch.kept rfl (hnotice _ _ _) (.inl rfl)⟩

end

end Pairing

/-- In every run in which fewer than `2 ^ 31` transactions are between a late reply and the current
transaction, and in which no transaction receives at a step that has come round, every message is
returned to the transaction and at the step that it was sent for, and no receive fails for the id or
the step of a message. -/
theorem transactions_orderly {ops : List Op}
    (hops : Allowed step (fun op s => Recent op s ∧ Unwrapped op s) ops initial) :
    (runSteps step ops initial).Orderly := by
  have h : (runSteps step ops initial).Paired :=
    inv_runSteps (fun op s hs hop => hs.kept hop.1 hop.2) Paired.initial hops
  exact h.orderly

def plainHeader : MessageHeader := ⟨0, 16, 0, 0⟩

def anyMessage : MessageKind := ⟨none, 16⟩

def lateReplyRun : List Op :=
  [.start, .request plainHeader, .receive anyMessage 0, .start, .request plainHeader, .serve anyMessage 1,
    .reply plainHeader, .serve anyMessage 1, .reply plainHeader, .receive anyMessage 2]

theorem lateReplyRun_orderly :
    Allowed step (fun op s => Recent op s ∧ Unwrapped op s) lateReplyRun initial ∧
      (runSteps step lateReplyRun initial).Orderly ∧
      (runSteps step lateReplyRun initial).returned.map Prod.fst = [⟨1, 2⟩] := by
  have hops : Allowed step (fun op s => Recent op s ∧ Unwrapped op s) lateReplyRun initial := by decide
  exact ⟨hops, transactions_orderly hops, by decide⟩

section Wrap

def exchanges : Nat → List Op
  | 0 => []
  | n + 1 => .reply plainHeader :: .receive anyMessage 1 :: exchanges n

def between (initiator responder : SocketChannel) (i p : Nat) (returned : List (Origin × Labelled))
    (failures : List Error) : Dialogue :=
  ⟨initiator, responder, [], [], i + 1, some (⟨.ofNat i, .ofNat p⟩, ⟨i, p⟩), some (⟨.ofNat i, .ofNat p⟩, ⟨i, p⟩),
    returned, failures⟩

variable (initiator responder : SocketChannel) (i : Nat) {p : Nat} (returned : List (Origin × Labelled))
  (failures : List Error)

theorem exchange_between (hp : 2 ≤ p) (hlt : p < 2 ^ 32) :
    ∃ returned', step (.receive anyMessage 1) (step (.reply plainHeader)
      (between initiator responder i p returned failures)) =
        between initiator responder i (p + 1) returned' failures := by
  have hnat : (UInt32.ofNat p).toNat = p := UInt32.toNat_ofNat_of_lt' hlt
  have hnone : UInt32.ofNat p ≠ stepNone := by
    intro heq
    rw [heq] at hnat
    have : stepNone.toNat = 0 := rfl
    omega
  have hreq : UInt32.ofNat p ≠ stepRequest := by
    intro heq
    rw [heq] at hnat
    have : stepRequest.toNat = 1 := rfl
    omega
  have hplace : p ≠ 1 := by omega
  refine ⟨returned ++ [(⟨i, p⟩, ⟨⟨0, 16, .ofNat i, .ofNat p⟩, some ⟨i, p⟩⟩)], ?_⟩
  have hsend : SocketChannel.sendMessage responder (.ofNat p) (.ofNat i) (⟨plainHeader, some ⟨i, p⟩⟩ : Labelled) =
      (responder, ⟨⟨0, 16, .ofNat i, .ofNat p⟩, some ⟨i, p⟩⟩) := by
    rw [SocketChannel.sendMessage, if_neg hnone]
    rfl
  have hreceive : initiator.receiveMessage anyMessage (.ofNat p) (.ofNat i)
      [(⟨⟨0, 16, .ofNat i, .ofNat p⟩, some ⟨i, p⟩⟩ : Labelled)] =
        (.ok ⟨⟨0, 16, .ofNat i, .ofNat p⟩, some ⟨i, p⟩⟩, initiator, []) := by
    have hbefore : initiator.beforeReceive (.ofNat p) = initiator := by rw [SocketChannel.beforeReceive, if_neg hnone]
    have hsize : ¬(16 : UInt32).toNat < headerSize := by decide
    have hverdict : initiator.inspect (.ofNat p) (.ofNat i) ⟨0, 16, .ofNat i, .ofNat p⟩ = .take := by
      rw [SocketChannel.inspect, if_neg hsize, if_neg hnone, if_neg hnone, if_neg hreq]
      exact inspectReply_same rfl rfl
    rw [SocketChannel.receiveMessage]
    simp only [hbefore, hverdict]
    rfl
  simp only [step, Dialogue.reply, Dialogue.receive, between, Transaction.send, Transaction.received, Origin.next, hsend,
    nil_append, take_succ_cons, take_nil, drop_succ_cons, drop_nil, hreceive, if_neg hplace,
    if_neg hreq, ofNat_succ]

theorem recent_exchange (kind : MessageKind) (arrived : Nat) :
    Recent (.receive kind arrived)
      (step (.reply plainHeader) (between initiator responder i p returned failures)) := by
  have hcont (c : SocketChannel) (step id : UInt32) (m : Labelled) :
      (c.sendMessage step id m).2.content = m.content := by
    rw [SocketChannel.sendMessage]
    split
    · rfl
    · rfl
  intro m hm
  have hm := mem_of_mem_take hm
  rw [mem_singleton.mp hm]
  change ((responder.sendMessage (.ofNat p) (.ofNat i) (⟨plainHeader, some ⟨i, p⟩⟩ : Labelled)).2.content.all _) = true
  rw [hcont]
  simp [step, Dialogue.reply, between]

theorem exchanges_between (n : Nat) (hp : 2 ≤ p) (hle : p + n ≤ 2 ^ 32) :
    Allowed step Recent (exchanges n) (between initiator responder i p returned failures) ∧
      ∃ returned', runSteps step (exchanges n) (between initiator responder i p returned failures) =
        between initiator responder i (p + n) returned' failures := by
  induction n generalizing p returned with
  | zero => exact ⟨trivial, returned, rfl⟩
  | succ n ih =>
    obtain ⟨returned', heq⟩ := exchange_between initiator responder i returned failures hp (by omega)
    obtain ⟨hallowed, returned'', hrun⟩ := ih returned' (p := p + 1) (by omega) (by omega)
    refine ⟨⟨trivial, recent_exchange initiator responder i returned failures anyMessage 1, ?_⟩, returned'', ?_⟩
    · rw [heq]
      exact hallowed
    · rw [show p + (n + 1) = p + 1 + n by omega, ← hrun, ← heq]
      rfl

def wrappingRun (n : Nat) : List Op :=
  [Op.start, Op.request plainHeader, Op.serve anyMessage 1] ++ (exchanges n ++
    ([Op.receive anyMessage 0, Op.start, Op.request plainHeader, Op.serve anyMessage 1] ++ (exchanges n ++
      [.reply plainHeader, .receive anyMessage 1])))

theorem wrappingRun_fails {n : Nat} (hn : 2 + n = 2 ^ 32) : Allowed step Recent (wrappingRun n) initial ∧
    .unexpectedNonTransactionId ∈ (runSteps step (wrappingRun n) initial).failures := by
  have hfirst : runSteps step [.start, .request plainHeader, .serve anyMessage 1] initial =
      between ⟨0, 0, 1, false⟩ {} 0 2 [] [] := by decide
  obtain ⟨hallowed, returned, hrun⟩ := exchanges_between ⟨0, 0, 1, false⟩ {} 0 [] [] n (Nat.le_refl 2) (Nat.le_of_eq hn)
  rw [hn] at hrun
  have hsecond : runSteps step [.receive anyMessage 0, .start, .request plainHeader, .serve anyMessage 1]
      (between ⟨0, 0, 1, false⟩ {} 0 (2 ^ 32) returned []) =
        between ⟨0, 1, 2, false⟩ {} 1 2 returned [.timeout] := by
    rfl
  obtain ⟨hallowed', returned', hrun'⟩ := exchanges_between ⟨0, 1, 2, false⟩ {} 1 returned [.timeout] n (Nat.le_refl 2)
    (Nat.le_of_eq hn)
  rw [hn] at hrun'
  have hlast : (runSteps step [.reply plainHeader, .receive anyMessage 1]
      (between ⟨0, 1, 2, false⟩ {} 1 (2 ^ 32) returned' [.timeout])).failures =
        [.timeout, .unexpectedNonTransactionId] := by
    rfl
  constructor
  · refine allowed_append (by decide) ?_
    rw [hfirst]
    refine allowed_append hallowed ?_
    rw [hrun]
    refine allowed_append ⟨(by intro m hm; cases hm), trivial, trivial, trivial, trivial⟩ ?_
    rw [hsecond]
    refine allowed_append hallowed' ?_
    rw [hrun']
    exact ⟨trivial, recent_exchange _ _ _ _ _ anyMessage 1, trivial⟩
  · rw [wrappingRun, runSteps_append, hfirst, runSteps_append, hrun, runSteps_append, hsecond, runSteps_append, hrun',
      hlast]
    exact mem_cons_of_mem _ mem_cons_self

/-- Fewer than `2 ^ 31` transactions are apart, but a transaction may have `2 ^ 32 - 2` replies. -/
theorem recent_not_orderly : ¬∀ ops, Allowed step Recent ops initial → (runSteps step ops initial).Orderly := by
  intro h
  obtain ⟨n, hn⟩ : ∃ n, 2 + n = 2 ^ 32 := ⟨4294967294, rfl⟩
  obtain ⟨hallowed, hfails⟩ := wrappingRun_fails hn
  have := (h _ hallowed).failures _ hfails
  cases this

end Wrap

end WslPlus.Channel.Dialogue
