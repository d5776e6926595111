import WslPlus.Cli.ArgumentParser

/-!
# The steps of the parser

`Command::ParseArguments` calls `Step` and `ThrowIfError` until `Step` has nothing left to do. Each
step reads a token, but for one that stops in front of it. An exception other than
`ArgumentException` comes from a token of dashes alone, of which the name is looked for behind its
end.
-/

namespace WslPlus.Cli

open List

variable {τ : Type} [DecidableEq τ]

/-- `ParseArgumentsStateMachine` between two steps, with the tokens from its iterator on. -/
structure StepState (τ : Type) where
  machine : Machine τ
  exception : Option (Message × List (Argument τ))
  rest : List (List Char)
  stopped : Bool

/-- What a call of `Step` does: it returns false or true, or an exception leaves it. -/
inductive StepResult (τ : Type) where
  | nothing
  | stepped (s : StepState τ)
  | outOfRange

namespace Parser

variable (p : Parser τ)

def step (s : StepState τ) : StepResult τ :=
  match s.stopped, s.rest with
  | true, _ => .nothing
  | false, [] => .nothing
  | false, currArg :: rest =>
    match p.stepInternal s.machine currArg rest with
    | .next m => .stepped ⟨m, none, rest, false⟩
    | .finish m => .stepped ⟨m, none, [], false⟩
    -- `BackUpAndStop` leaves the iterator at the token and no value is awaited.
    | .stop => .stepped ⟨{ s.machine with pending := none }, none, currArg :: rest, true⟩
    | .error (.argument message arguments) => .stepped ⟨s.machine, some (message, arguments), rest, false⟩
    | .error .outOfRange => .outOfRange

def throwIfError (s : StepState τ) : Option (ParseError τ) :=
  match s.exception, s.machine.pending, s.rest with
  | some (message, arguments), _, _ => some (.argument message arguments)
  | none, some (type, arg), [] => some (p.exception (.missingArgument arg) type)
  | none, _, _ => none

/-- How the loop ends. It has not ended if it would take another call of `Step`. -/
inductive LoopEnd (τ : Type) where
  | normal (s : StepState τ)
  | thrown (e : ParseError τ)
  | running

/-- The loop of `ParseArguments` with a number of calls of `Step`. -/
def loop : Nat → StepState τ → LoopEnd τ
  | 0, _ => .running
  | calls + 1, s =>
    match p.step s with
    | .outOfRange => .thrown .outOfRange
    | .nothing =>
      match p.throwIfError s with
      | some e => .thrown e
      | none => .normal s
    | .stepped s' =>
      match p.throwIfError s' with
      | some e => .thrown e
      | none => loop calls s'

def start (overridable : List τ) (args : ArgMap τ) (tokens : List (List Char)) : StepState τ :=
  ⟨{ args, pending := none, anchor := none, search := p.positionalArgs, overridable }, none, tokens, false⟩

/-- Ends normally or with an `ArgumentException`. -/
def LoopEnd.IsUsage : LoopEnd τ → Prop
  | .normal _ => True
  | .thrown (.argument _ _) => True
  | _ => False

/-- Where the parser has stopped early, the tokens before are consumed, and alone they give the same
arguments. -/
def StopsExactly (overridable : List τ) (args : ArgMap τ) (tokens : List (List Char))
    (s : StepState τ) : Prop :=
  s.stopped = true → ∃ consumed s', tokens = consumed ++ s.rest ∧ s.rest ≠ [] ∧
    p.loop (consumed.length + 1) (p.start overridable args consumed) = .normal s' ∧ s'.machine.args = s.machine.args

def isDashes (token : List Char) : Prop := 3 ≤ token.length ∧ ∀ c ∈ token, c = '-'

def readTokens (after : List (List Char)) : List (List Char) → Machine τ → Option (Machine τ)
  | [], m => some m
  | token :: tokens, m =>
    match p.stepInternal m token (tokens ++ after) with
    | .next m' => readTokens after tokens m'
    | _ => none

/-- No token of dashes is read as the name of an option: it is a value, or it is behind the anchor of a
command that forwards arguments. -/
def NoDashes (m : Machine τ) (tokens : List (List Char)) : Prop :=
  ∀ before token after m', tokens = before ++ token :: after → p.readTokens (token :: after) before m = some m' →
    isDashes token → m'.pending ≠ none ∨ (p.forwardArgs ≠ [] ∧ m'.anchor ≠ none)

/-- An exception of `substr`. -/
def IsRange (outcome : Outcome τ) : Prop := outcome = .error .outOfRange

omit [DecidableEq τ] in
theorem not_isRange_unknown (message : Message) : ¬ IsRange (p.unknown message) := by
  unfold IsRange unknown
  split
  · exact fun h => nomatch h
  · exact fun h => nomatch h

theorem not_isRange_applyFlagValue (m : Machine τ) (type : τ) (value currArg : List Char) :
    ¬ IsRange (p.applyFlagValue m type value currArg) := by
  unfold IsRange applyFlagValue Parser.exception
  split
  · exact fun h => nomatch h
  · exact fun h => nomatch h

theorem not_isRange_processPositional (m : Machine τ) (currArg : List Char) :
    ¬ IsRange (processPositional m currArg) := by
  unfold IsRange processPositional
  simp only
  split
  · exact fun h => nomatch h
  · exact fun h => nomatch h

theorem not_isRange_processAnchored (m : Machine τ) (anchor : Argument τ) (currArg : List Char)
    (rest : List (List Char)) : ¬ IsRange (p.processAnchored m anchor currArg rest) := by
  unfold IsRange processAnchored
  simp only
  split
  · exact fun h => nomatch h
  split
  · exact fun h => nomatch h
  · exact fun h => nomatch h
  · exact fun h => nomatch h

theorem not_isRange_processFound (currArg : List Char) (arg : Argument τ) (text : List Char) (m : Machine τ)
    {more : List Char → Machine τ → Outcome τ} (hmore : ∀ text m, ¬ IsRange (more text m)) :
    ¬ IsRange (p.processFound currArg arg text m more) := by
  unfold processFound
  split
  · split
    · exact fun h => nomatch h
    split
    · exact fun h => nomatch h
    · exact fun h => nomatch h
  · split
    · exact fun h => nomatch h
    split
    · exact not_isRange_applyFlagValue p m _ _ _
    · exact hmore _ _

theorem not_isRange_processAliases (currArg : List Char) (fuel : Nat) (arg : Argument τ) (text : List Char)
    (m : Machine τ) : ¬ IsRange (p.processAliases currArg fuel arg text m) := by
  induction fuel generalizing arg text m with
  | zero =>
    rw [processAliases]
    apply not_isRange_processFound
    intro text m
    exact fun h => nomatch h
  | succ fuel ih =>
    rw [processAliases]
    apply not_isRange_processFound
    intro text m
    split
    · exact fun h => nomatch h
    · exact ih _ _ _

theorem not_isRange_processAlias (m : Machine τ) (currArg text : List Char) :
    ¬ IsRange (p.processAlias m currArg text) := by
  unfold processAlias
  split
  · exact not_isRange_unknown p _
  · exact not_isRange_processAliases p _ _ _ _ _

theorem isRange_processNamed_iff (m : Machine τ) (currArg text : List Char) :
    IsRange (p.processNamed m currArg text) ↔ text ≠ [] ∧ ∀ c ∈ text, c = '-' := by
  unfold processNamed
  split
  · rename_i hnil
    exact ⟨fun h => absurd h (not_isRange_unknown p _), fun h => absurd hnil h.1⟩
  · rename_i hne
    simp only
    split
    · rename_i hdashes
      rw [dropWhile_eq_nil_iff] at hdashes
      exact ⟨fun _ => ⟨hne, fun c hc => by simpa using hdashes c hc⟩, fun _ => rfl⟩
    · rename_i hname
      have hnot : ¬ (text ≠ [] ∧ ∀ c ∈ text, c = '-') := by
        rintro ⟨_, hall⟩
        rw [dropWhile_eq_nil_iff] at hname
        exact hname fun c hc => by simpa using hall c hc
      refine iff_of_false ?_ hnot
      split
      · exact not_isRange_unknown p _
      · split
        · exact fun h => nomatch h
        · exact fun h => nomatch h
      · split
        · exact not_isRange_applyFlagValue p m _ _ _
        · exact fun h => nomatch h

theorem isDashes_iff (token : List Char) :
    isDashes token ↔ ∃ text, token = '-' :: '-' :: text ∧ text ≠ [] ∧ ∀ c ∈ text, c = '-' := by
  constructor
  · rintro ⟨hlen, hall⟩
    match token, hlen, hall with
    | a :: b :: c :: text, _, hall =>
      have ha : a = '-' := hall a mem_cons_self
      have hb : b = '-' := hall b (mem_cons_of_mem a mem_cons_self)
      refine ⟨c :: text, by rw [ha, hb], cons_ne_nil c text, ?_⟩
      intro d hd
      exact hall d (mem_cons_of_mem a (mem_cons_of_mem b hd))
  · rintro ⟨text, rfl, hne, hall⟩
    have hpos := length_pos_iff.mpr hne
    constructor
    · simp only [length_cons]
      omega
    · simpa using hall

theorem isRange_processToken_iff (m : Machine τ) (currArg : List Char) :
    IsRange (p.processToken m currArg) ↔ isDashes currArg := by
  rw [isDashes_iff]
  unfold processToken
  split
  · refine iff_of_false ?_ (by simp)
    split
    · exact not_isRange_processPositional m _
    · exact not_isRange_unknown p _
  · rename_i text
    rw [isRange_processNamed_iff]
    constructor
    · intro h
      exact ⟨text, rfl, h⟩
    · rintro ⟨text', heq, h⟩
      cases heq
      exact h
  · rename_i text hone htwo
    refine iff_of_false (not_isRange_processAlias p m _ text) ?_
    rintro ⟨text', heq, _⟩
    exact htwo text' (List.cons.inj heq).2
  · rename_i hone htwo hthree
    refine iff_of_false ?_ ?_
    · split
      · exact fun h => nomatch h
      · exact not_isRange_processPositional m _
    · rintro ⟨text', heq, _⟩
      exact htwo text' heq

theorem isRange_stepInternal_iff (m : Machine τ) (currArg : List Char) (rest : List (List Char)) :
    IsRange (p.stepInternal m currArg rest) ↔
      isDashes currArg ∧ ¬ (m.pending ≠ none ∨ (p.forwardArgs ≠ [] ∧ m.anchor ≠ none)) := by
  unfold stepInternal
  cases hpend : m.pending with
  | some value => exact iff_of_false (fun h => nomatch h) (fun h => h.2 (.inl (Option.some_ne_none value)))
  | none =>
    simp only
    split
    · rename_i forward others anchor hforward hanchor
      refine iff_of_false (not_isRange_processAnchored p m _ _ _) ?_
      rintro ⟨_, hnot⟩
      rw [hforward, hanchor] at hnot
      simp at hnot
    · rename_i hnot
      rw [isRange_processToken_iff]
      constructor
      · intro h
        refine ⟨h, ?_⟩
        rintro (hvalue | ⟨hforward, hanchor⟩)
        · exact hvalue rfl
        · obtain ⟨forward, others, hforward⟩ := exists_cons_of_ne_nil hforward
          obtain ⟨anchor, hanchor⟩ := Option.ne_none_iff_exists'.mp hanchor
          exact hnot forward others anchor hforward hanchor
      · exact fun h => h.1

variable {currArg : List Char} {rest : List (List Char)}

theorem pending_of_stop {m : Machine τ} (h : p.stepInternal m currArg rest = .stop) : m.pending = none := by
  unfold stepInternal at h
  cases hpend : m.pending with
  | some value =>
    rw [hpend] at h
    cases h
  | none => rfl

theorem processAnchored_next {m m' : Machine τ} {anchor : Argument τ}
    (h : p.processAnchored m anchor currArg rest = .next m') (rest' : List (List Char)) :
    p.processAnchored m anchor currArg rest' = .next m' := by
  unfold processAnchored at h ⊢
  by_cases hroom : anchor.limit = .unlimited ∨ m.args.count anchor.type < 1
  · rw [if_pos hroom] at h ⊢
    exact h
  · rw [if_neg hroom] at h ⊢
    simp only at h ⊢
    split at h
    · exact h
    · cases h
    · cases h

theorem stepInternal_next {m m' : Machine τ}
    (h : p.stepInternal m currArg rest = .next m') (rest' : List (List Char)) :
    p.stepInternal m currArg rest' = .next m' := by
  unfold stepInternal at h ⊢
  split at h
  · exact h
  · split at h
    · exact processAnchored_next p h rest'
    · exact h

section Loop

variable {p}

def between (m : Machine τ) (tokens : List (List Char)) : StepState τ := ⟨m, none, tokens, false⟩

variable {m : Machine τ}

theorem throwIfError_between {tokens : List (List Char)} (h : m.pending = none ∨ tokens ≠ []) :
    p.throwIfError (between m tokens) = none := by
  unfold throwIfError between
  cases hpend : m.pending with
  | none => rfl
  | some value =>
    have hne := h.resolve_left (by rw [hpend]; exact Option.some_ne_none value)
    obtain ⟨token, rest, rfl⟩ := exists_cons_of_ne_nil hne
    rfl

variable {e : ParseError τ}

theorem throwIfError_isUsage {s : StepState τ} (h : p.throwIfError s = some e) :
    LoopEnd.IsUsage (.thrown e : LoopEnd τ) := by
  unfold throwIfError Parser.exception at h
  split at h
  · cases h
    trivial
  · cases h
    trivial
  · cases h

variable {token : List Char} {rest : List (List Char)}

theorem noDashes_of_ended (h : ∀ m', p.stepInternal m token rest ≠ .next m') :
    p.NoDashes m (token :: rest) ↔ ¬ IsRange (p.stepInternal m token rest) := by
  rw [isRange_stepInternal_iff, not_and, not_not]
  constructor
  · intro hno hdashes
    exact hno [] token rest m rfl rfl hdashes
  · intro hfirst before token' after m' heq hread hdashes
    cases before with
    | nil =>
      cases heq
      cases hread
      exact hfirst hdashes
    | cons first before =>
      cases heq
      rw [readTokens] at hread
      split at hread
      · rename_i m'' hnext
        exact absurd hnext (h m'')
      · cases hread

theorem noDashes_of_next {m m' : Machine τ}
    (h : p.stepInternal m token rest = .next m') : p.NoDashes m (token :: rest) ↔ p.NoDashes m' rest := by
  have hfirst : isDashes token → m.pending ≠ none ∨ (p.forwardArgs ≠ [] ∧ m.anchor ≠ none) := by
    intro hdashes
    by_contra hnot
    have hrange := (isRange_stepInternal_iff p m token rest).mpr ⟨hdashes, hnot⟩
    rw [h] at hrange
    cases hrange
  constructor
  · intro hno before token' after m'' heq hread
    apply hno (token :: before) token' after m'' (by rw [heq, cons_append])
    rw [readTokens, ← heq, h]
    exact hread
  · intro hno before token' after m'' heq hread hdashes
    cases before with
    | nil =>
      cases heq
      cases hread
      exact hfirst hdashes
    | cons first before =>
      rw [cons_append, List.cons.injEq] at heq
      obtain ⟨rfl, rfl⟩ := heq
      rw [readTokens, h] at hread
      exact hno before token' after m'' rfl hread hdashes

/-- What holds of the loop over some tokens from a state on. -/
structure Looped (p : Parser τ) (m : Machine τ) (tokens : List (List Char)) (result : LoopEnd τ) : Prop where
  ends : result ≠ .running
  usage : result.IsUsage ↔ p.NoDashes m tokens
  stops : ∀ s, result = .normal s → s.stopped = true → ∃ consumed s', tokens = consumed ++ s.rest ∧ s.rest ≠ [] ∧
    (m.pending = none ∨ consumed ≠ []) ∧ p.loop (consumed.length + 1) (between m consumed) = .normal s' ∧
    s'.machine.args = s.machine.args

theorem loop_of_step {s s' : StepState τ} (h : p.step s = .stepped s') (hnone : p.throwIfError s' = none)
    (calls : Nat) : p.loop (calls + 1) s = p.loop calls s' := by
  rw [loop, h]
  simp only [hnone]

theorem loop_of_error {s s' : StepState τ} (h : p.step s = .stepped s')
    (herror : p.throwIfError s' = some e) (calls : Nat) : p.loop (calls + 1) s = .thrown e := by
  rw [loop, h]
  simp only [herror]

theorem loop_of_nothing {s : StepState τ} (h : p.step s = .nothing) (hnone : p.throwIfError s = none)
    (calls : Nat) :
    p.loop (calls + 1) s = .normal s := by
  rw [loop, h]
  simp only [hnone]

theorem step_between (m : Machine τ) (token : List Char) (rest : List (List Char)) :
    p.step (between m (token :: rest)) =
      match p.stepInternal m token rest with
      | .next m' => .stepped (between m' rest)
      | .finish m' => .stepped (between m' [])
      | .stop => .stepped ⟨{ m with pending := none }, none, token :: rest, true⟩
      | .error (.argument message arguments) => .stepped ⟨m, some (message, arguments), rest, false⟩
      | .error .outOfRange => .outOfRange := rfl

theorem looped_nil (h : m.pending = none) : Looped p m [] (p.loop 1 (between m [])) := by
  rw [loop_of_nothing rfl (throwIfError_between (.inl h))]
  refine ⟨fun h => (nomatch h), iff_of_true trivial ?_, ?_⟩
  · intro before token after m' heq
    simp at heq
  · intro s hs hstop
    cases hs
    cases hstop

theorem looped_thrown {tokens : List (List Char)}
    (husage : LoopEnd.IsUsage (.thrown e : LoopEnd τ) ↔ p.NoDashes m tokens) : Looped p m tokens (.thrown e) :=
  ⟨fun h => (nomatch h), husage, fun _ h => (nomatch h)⟩

theorem Looped.cons {m m' : Machine τ}
    (hnext : p.stepInternal m token rest = .next m') {result : LoopEnd τ} (h : Looped p m' rest result) :
    Looped p m (token :: rest) result := by
  refine ⟨h.ends, h.usage.trans (noDashes_of_next hnext).symm, ?_⟩
  intro s hs hstop
  obtain ⟨consumed, s', hrest, hne, hpend, hloop, hargs⟩ := h.stops s hs hstop
  refine ⟨token :: consumed, s', by rw [hrest, cons_append], hne, .inr (cons_ne_nil token consumed), ?_,
    hargs⟩
  have hstep : p.step (between m (token :: consumed)) = .stepped (between m' consumed) := by
    rw [step_between, stepInternal_next p hnext consumed]
  rw [length_cons, loop_of_step hstep (throwIfError_between hpend)]
  exact hloop

theorem usage_of_ended {outcome : Outcome τ}
    (h : p.stepInternal m token rest = outcome) (hnext : ∀ m', outcome ≠ .next m') (hrange : ¬ IsRange outcome)
    {result : LoopEnd τ} (husage : result.IsUsage) : result.IsUsage ↔ p.NoDashes m (token :: rest) := by
  subst h
  exact iff_of_true husage ((noDashes_of_ended hnext).mpr hrange)

theorem looped_finish {m m' : Machine τ} (h : p.stepInternal m token rest = .finish m') :
    Looped p m (token :: rest) (p.loop (rest.length + 2) (between m (token :: rest))) := by
  have hstep : p.step (between m (token :: rest)) = .stepped (between m' []) := by rw [step_between, h]
  have husage {result : LoopEnd τ} (hres : result.IsUsage) :=
    usage_of_ended h (fun _ h => (nomatch h)) (fun h => (nomatch h)) hres
  cases hthrow : p.throwIfError (between m' []) with
  | some e =>
    rw [loop_of_error hstep hthrow]
    exact looped_thrown (husage (throwIfError_isUsage hthrow))
  | none =>
    rw [loop_of_step hstep hthrow, loop_of_nothing rfl hthrow]
    refine ⟨fun h => (nomatch h), husage trivial, ?_⟩
    intro s hs hstop
    cases hs
    cases hstop

theorem looped_stop (h : p.stepInternal m token rest = .stop) :
    Looped p m (token :: rest) (p.loop (rest.length + 2) (between m (token :: rest))) := by
  have hstep :
      p.step (between m (token :: rest)) = .stepped ⟨{ m with pending := none }, none, token :: rest, true⟩ := by
    rw [step_between, h]
  have hpend := pending_of_stop p h
  rw [loop_of_step hstep rfl, loop_of_nothing rfl rfl]
  refine ⟨fun h => (nomatch h), usage_of_ended h (fun _ h => (nomatch h)) (fun h => (nomatch h)) trivial, ?_⟩
  intro s hs _
  cases hs
  exact ⟨[], between m [], rfl, cons_ne_nil token rest, .inl hpend,
    loop_of_nothing rfl (throwIfError_between (.inl hpend)) 0, rfl⟩

theorem looped_error (h : p.stepInternal m token rest = .error e) :
    Looped p m (token :: rest) (p.loop (rest.length + 2) (between m (token :: rest))) := by
  have hstep := step_between (p := p) m token rest
  rw [h] at hstep
  cases e with
  | argument message arguments =>
    rw [loop_of_error hstep rfl]
    exact looped_thrown (usage_of_ended h (fun _ h => (nomatch h)) (fun h => (nomatch h)) trivial)
  | outOfRange =>
    have hend : p.loop (rest.length + 2) (between m (token :: rest)) = .thrown .outOfRange := by rw [loop, hstep]
    have hno : ¬ p.NoDashes m (token :: rest) := by
      rw [noDashes_of_ended (by rw [h]; exact fun _ h => (nomatch h)), h]
      exact fun hrange => hrange rfl
    rw [hend]
    exact looped_thrown (iff_of_false (fun h => h) hno)

theorem looped (tokens : List (List Char)) (m : Machine τ) (h : m.pending = none ∨ tokens ≠ []) :
    Looped p m tokens (p.loop (tokens.length + 1) (between m tokens)) := by
  induction tokens generalizing m with
  | nil => exact looped_nil (h.resolve_right fun hne => hne rfl)
  | cons token rest ih =>
    cases hout : p.stepInternal m token rest with
    | finish m' => exact looped_finish hout
    | stop => exact looped_stop hout
    | error e => exact looped_error hout
    | next m' =>
      have hstep : p.step (between m (token :: rest)) = .stepped (between m' rest) := by rw [step_between, hout]
      by_cases hready : m'.pending = none ∨ rest ≠ []
      · rw [length_cons, loop_of_step hstep (throwIfError_between hready)]
        exact (ih m' hready).cons hout
      · -- The value of the last token is missing.
        rw [not_or, not_not] at hready
        obtain ⟨hpend, rfl⟩ := hready
        obtain ⟨⟨type, arg⟩, hvalue⟩ := Option.ne_none_iff_exists'.mp hpend
        have hthrow : p.throwIfError (between m' []) = some (p.exception (.missingArgument arg) type) := by
          simp only [throwIfError, between, hvalue]
        rw [length_cons, loop_of_error hstep hthrow]
        apply looped_thrown
        rw [noDashes_of_next hout]
        refine iff_of_true (throwIfError_isUsage hthrow) ?_
        intro before token' after m'' heq
        simp at heq

/-- The loop ends within one call of `Step` for each token and one more, it ends normally or with an
`ArgumentException`, and where it stops the tokens before are consumed, if and only if no token of
dashes alone is read as a name. -/
theorem loop_usage_iff (overridable : List τ) (args : ArgMap τ) (tokens : List (List Char)) :
    (p.loop (tokens.length + 1) (p.start overridable args tokens) ≠ .running ∧
      (p.loop (tokens.length + 1) (p.start overridable args tokens)).IsUsage ∧
      ∀ s, p.loop (tokens.length + 1) (p.start overridable args tokens) = .normal s →
        p.StopsExactly overridable args tokens s) ↔
      p.NoDashes (p.start overridable args tokens).machine tokens := by
  have hlooped : Looped p (p.start overridable args tokens).machine tokens
      (p.loop (tokens.length + 1) (p.start overridable args tokens)) := looped tokens _ (.inl rfl)
  constructor
  · rintro ⟨_, husage, _⟩
    exact hlooped.usage.mp husage
  · intro hno
    refine ⟨hlooped.ends, hlooped.usage.mpr hno, ?_⟩
    intro s hs hstopped
    obtain ⟨consumed, s', hrest, hne, _, hloop, hargs⟩ := hlooped.stops s hs hstopped
    exact ⟨consumed, s', hrest, hne, hloop, hargs⟩

end Loop

def quietCommand : Parser Unit where
  arguments := [⟨(), "quiet".toList, "q".toList, .flag, .single⟩]
  optionsOnly := false
  stopOnUnknown := true

theorem loop_dashes :
    quietCommand.loop 2 (quietCommand.start [] (fun _ => []) ["---".toList]) = .thrown .outOfRange ∧
      ¬ LoopEnd.IsUsage (quietCommand.loop 2 (quietCommand.start [] (fun _ => []) ["---".toList])) := by
  have hthrown : quietCommand.loop 2 (quietCommand.start [] (fun _ => []) ["---".toList]) = .thrown .outOfRange := rfl
  refine ⟨hthrown, ?_⟩
  rw [hthrown]
  exact fun h => h

end Parser

end WslPlus.Cli
