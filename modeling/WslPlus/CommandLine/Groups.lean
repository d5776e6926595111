import WslPlus.CommandLine.Parser

/-!
# Groups of short options

A token like `-xyz` should mean what `-x`, `-y` and `-z` mean, one after the other and without
values, or nothing if one of them is unknown. The loop over its characters does not look at what
`Consume` returns, and calls it before it knows the characters behind.
-/

namespace WslPlus.CommandLine

open List CharType

variable {T : Type} [CharType T] [DecidableEq T]

/-- What comes of a token: the parser goes on at a position, or it reports an option without its
value, an unknown option, or what `Consume` throws. -/
inductive Effect (T : Type) where
  | accepted (position : Nat) (calls : List (Call T))
  | missing (calls : List (Call T))
  | unknown (calls : List (Call T))
  | thrown (calls : List (Call T))
deriving DecidableEq

def TokenResult.effect : TokenResult T → Effect T
  | .next position _ calls => .accepted position calls
  | .ended (.parsed calls) => .accepted 0 calls
  | .ended (.stopped calls _) => .unknown calls
  | .ended (.thrown (.invalidCommandLine _) calls) => .unknown calls
  | .ended (.thrown (.missingArgument _) calls) => .missing calls
  | .ended (.thrown .consume calls) => .thrown calls

/-- The options of a group as tokens of their own, each with nothing behind it. If one of them is unknown,
the calls are those in front of the group. -/
def Parser.separately (p : Parser T) (start : List (Call T)) (position : Nat) :
    List T → List (Call T) → Effect T
  | [], calls => .accepted position calls
  | c :: text, calls =>
    match (p.consumeToken false position [ofChar '-', c] [] calls).effect with
    | .accepted position' calls' => p.separately start position' text calls'
    | .missing calls' => .missing calls'
    | .unknown _ => .unknown start
    | .thrown calls' => .thrown calls'

/-- A token that is read as short options: all of them are known, or it is no name as a whole. -/
structure Group (p : Parser T) where
  token : List T
  cluster : isCluster token = true
  short : (∀ c ∈ token.tail, (p.findShort c).isSome) ∨ p.find (some token) (-1) = none

def Parser.callsOf (p : Parser T) (text : List T) : List (Call T) :=
  text.filterMap fun c => (p.findShort c).map fun found => ⟨found.2, none, none⟩

def Parser.Passes (p : Parser T) (calls : List (Call T)) (text : List T) : Prop :=
  ∀ before c after, text = before ++ c :: after →
    ∃ a i, p.findShort c = some (a, i) ∧ a.consume (calls ++ p.callsOf before) none ≠ none

/-- No option that is reached asks for a value, and only the first character is unknown. -/
structure Parser.Regular (p : Parser T) (calls : List (Call T)) (text : List T) : Prop where
  noValue : ∀ before c after a i result, text = before ++ c :: after → p.Passes calls before →
    p.findShort c = some (a, i) → a.consume (calls ++ p.callsOf before) none = some result → 0 ≤ result
  unknownFirst : ∀ before c after, text = before ++ c :: after → p.Passes calls before →
    p.findShort c = none → before = []

theorem find_eq_findShort (p : Parser T) (c : T) : p.find (some [ofChar '-', c]) (-1) = p.findShort c := by
  unfold Parser.find Parser.findShort
  congr 1
  funext e
  cases hshape : e.1.shape with
  | option longName shortName => simp [Shape.slot]
  | positional position =>
    simp only [Shape.matchesAt, Shape.slot]
    simp

theorem consumeToken_short (p : Parser T) (position : Nat) (c : T) (calls : List (Call T)) :
    (p.consumeToken false position [ofChar '-', c] [] calls).effect =
      match p.findShort c with
      | none => .unknown calls
      | some (a, i) =>
        match a.consume calls none with
        | none => .thrown (calls ++ [⟨i, none, none⟩])
        | some result =>
          if result < 0 then .missing (calls ++ [⟨i, none, none⟩])
          else .accepted position (calls ++ [⟨i, none, none⟩]) := by
  have hcluster : ¬ (false = false ∧ isCluster [ofChar '-', c] = true) := by simp [isCluster]
  have hne : ([ofChar '-', c] : List T) ≠ [ofChar '-'] := by simp
  unfold Parser.consumeToken Parser.consumeWhole
  rw [if_neg hcluster]
  simp only [head?_cons, hne, ne_eq, not_false_eq_true, and_self, if_true, Bool.false_eq_true, if_false,
    find_eq_findShort]
  cases hfind : p.findShort c with
  | none =>
    simp only [Parser.reject]
    split
    · rfl
    · rfl
  | some found =>
    obtain ⟨a, i⟩ := found
    have hslot : a.shape.slot = none := by
      rw [← find_eq_findShort] at hfind
      exact slot_of_find hfind
    simp only [hslot, Option.isSome_none, Bool.false_eq_true, if_false, head?_nil]
    cases a.consume calls none with
    | none => rfl
    | some result =>
      simp only
      split
      · rfl
      · simp [TokenResult.effect, advance]

def ClusterResult.effect (position : Nat) : ClusterResult T → Effect T
  | .found calls => .accepted position calls
  | .missing calls => .unknown calls
  | .thrown calls => .thrown calls

variable {p : Parser T}

theorem consumeCluster_known {text : List T} (h : ∀ c ∈ text, (p.findShort c).isSome)
    (calls calls' : List (Call T)) : p.consumeCluster text calls ≠ .missing calls' := by
  induction text generalizing calls with
  | nil =>
    intro heq
    cases heq
  | cons c text ih =>
    obtain ⟨hc, htext⟩ := forall_mem_cons.mp h
    obtain ⟨⟨a, i⟩, hfind⟩ := Option.isSome_iff_exists.mp hc
    simp only [Parser.consumeCluster, hfind]
    split
    · intro heq
      cases heq
    · exact ih htext _

theorem Group.head (group : Group p) : group.token.head? = some (ofChar '-') ∧ group.token ≠ [ofChar '-'] := by
  obtain ⟨token, hcluster, _⟩ := group
  match token, hcluster with
  | a :: b :: c :: rest, hcluster =>
    rw [isCluster, Bool.and_eq_true, decide_eq_true_eq] at hcluster
    exact ⟨congrArg some hcluster.1, by simp⟩

theorem consumeToken_group (group : Group p) (position : Nat) (rest : List (List T)) (calls : List (Call T)) :
    (p.consumeToken false position group.token rest calls).effect =
      (p.consumeCluster group.token.tail calls).effect position := by
  obtain ⟨hhead, hne⟩ := group.head
  unfold Parser.consumeToken
  rw [if_pos ⟨rfl, group.cluster⟩]
  cases hres : p.consumeCluster group.token.tail calls with
  | found calls' =>
    simp only [TokenResult.effect, ClusterResult.effect, advance, hhead]
    simp
  | thrown calls' => rfl
  | missing calls' =>
    have hname : p.find (some group.token) (-1) = none := by
      rcases group.short with hknown | hname
      · exact absurd hres (consumeCluster_known hknown calls calls')
      · exact hname
    unfold Parser.consumeWhole
    simp only [hhead, hne, ne_eq, not_false_eq_true, and_self, if_true, Bool.false_eq_true, if_false, hname,
      Parser.reject]
    split
    · rfl
    · rfl

omit [CharType T] [DecidableEq T] in
theorem effect_ne_missing (result : ClusterResult T) (position : Nat) (calls : List (Call T)) :
    result.effect position ≠ .missing calls := by
  cases result with
  | found calls' | missing calls' | thrown calls' => exact fun heq => nomatch heq

variable {c : T} {a : Argument T} {i : Nat}

theorem callsOf_cons (hfind : p.findShort c = some (a, i)) (calls : List (Call T)) (text : List T) :
    calls ++ p.callsOf (c :: text) = calls ++ [⟨i, none, none⟩] ++ p.callsOf text := by
  simp [Parser.callsOf, hfind]

variable {calls : List (Call T)}

theorem passes_cons
    (hfind : p.findShort c = some (a, i)) (hconsume : a.consume calls none ≠ none) (text : List T) :
    p.Passes calls (c :: text) ↔ p.Passes (calls ++ [⟨i, none, none⟩]) text := by
  constructor
  · intro h before d after htext
    obtain ⟨b, j, hfind', hconsume'⟩ := h (c :: before) d after (by rw [htext, cons_append])
    rw [callsOf_cons hfind] at hconsume'
    exact ⟨b, j, hfind', hconsume'⟩
  · intro h before d after htext
    cases before with
    | nil =>
      cases htext
      rw [Parser.callsOf, filterMap_nil, append_nil]
      exact ⟨a, i, hfind, hconsume⟩
    | cons b before =>
      cases htext
      rw [callsOf_cons hfind]
      exact h before d after rfl

theorem Parser.Passes.head {text : List T} (h : p.Passes calls (c :: text)) :
    ∃ a i, p.findShort c = some (a, i) ∧ a.consume calls none ≠ none := by
  obtain ⟨a, i, hfind, hconsume⟩ := h [] c text rfl
  rw [Parser.callsOf, filterMap_nil, append_nil] at hconsume
  exact ⟨a, i, hfind, hconsume⟩

/-- The condition along the characters, with the calls that the group is to leave when an option is unknown. -/
structure Parser.RegularFrom (p : Parser T) (start calls : List (Call T)) (text : List T) : Prop where
  noValue : ∀ before c after a i result, text = before ++ c :: after → p.Passes calls before →
    p.findShort c = some (a, i) → a.consume (calls ++ p.callsOf before) none = some result → 0 ≤ result
  unknown : ∀ before c after, text = before ++ c :: after → p.Passes calls before →
    p.findShort c = none → start = calls ++ p.callsOf before

theorem regularFrom_unknown (hfind : p.findShort c = none) (start calls : List (Call T))
    (text : List T) : p.RegularFrom start calls (c :: text) ↔ start = calls := by
  have hstop {b : T} {before : List T} (h : p.Passes calls (b :: before)) : b ≠ c := by
    rintro rfl
    obtain ⟨a, i, hsome, _⟩ := h.head
    rw [hfind] at hsome
    cases hsome
  constructor
  · intro h
    have hstart := h.unknown [] c text rfl (fun before d after htext => by simp at htext) hfind
    rw [hstart, Parser.callsOf, filterMap_nil, append_nil]
  · rintro rfl
    constructor
    · intro before d after a i result htext hpasses hsome _
      cases before with
      | nil =>
        cases htext
        rw [hfind] at hsome
        cases hsome
      | cons b before =>
        cases htext
        exact absurd rfl (hstop hpasses)
    · intro before d after htext hpasses _
      cases before with
      | nil => exact (append_nil start).symm
      | cons b before =>
        cases htext
        exact absurd rfl (hstop hpasses)

theorem regularFrom_thrown
    (hfind : p.findShort c = some (a, i)) (hconsume : a.consume calls none = none) (start : List (Call T))
    (text : List T) : p.RegularFrom start calls (c :: text) := by
  have hstop {before : List T} : ¬ p.Passes calls (c :: before) := by
    intro h
    obtain ⟨b, j, hsome, hne⟩ := h.head
    rw [hfind] at hsome
    cases hsome
    exact hne hconsume
  constructor
  · intro before d after b j result htext hpasses hsome hres
    cases before with
    | nil =>
      cases htext
      rw [hfind] at hsome
      cases hsome
      rw [Parser.callsOf, filterMap_nil, append_nil, hconsume] at hres
      cases hres
    | cons e before =>
      cases htext
      exact absurd hpasses hstop
  · intro before d after htext hpasses hnone
    cases before with
    | nil =>
      cases htext
      rw [hfind] at hnone
      cases hnone
    | cons e before =>
      cases htext
      exact absurd hpasses hstop

theorem regularFrom_next {result : Int}
    (hfind : p.findShort c = some (a, i)) (hconsume : a.consume calls none = some result)
    (start : List (Call T))
    (text : List T) :
    p.RegularFrom start calls (c :: text) ↔
      0 ≤ result ∧ p.RegularFrom start (calls ++ [⟨i, none, none⟩]) text := by
  have hpasses := passes_cons hfind (by rw [hconsume]; exact Option.some_ne_none result)
  constructor
  · intro h
    refine ⟨?_, ?_, ?_⟩
    · apply h.noValue [] c text a i result rfl (fun before d after htext => by simp at htext) hfind
      rw [Parser.callsOf, filterMap_nil, append_nil, hconsume]
    · intro before d after b j result' htext hbefore hsome hres
      apply h.noValue (c :: before) d after b j result' (by rw [htext, cons_append])
        ((hpasses before).mpr hbefore) hsome
      rw [callsOf_cons hfind]
      exact hres
    · intro before d after htext hbefore hnone
      rw [← callsOf_cons hfind]
      exact h.unknown (c :: before) d after (by rw [htext, cons_append]) ((hpasses before).mpr hbefore) hnone
  · rintro ⟨hnonneg, h⟩
    constructor
    · intro before d after b j result' htext hbefore hsome hres
      cases before with
      | nil =>
        cases htext
        rw [hfind] at hsome
        cases hsome
        rw [Parser.callsOf, filterMap_nil, append_nil, hconsume] at hres
        cases hres
        exact hnonneg
      | cons e before =>
        cases htext
        rw [callsOf_cons hfind] at hres
        exact h.noValue before d after b j result' rfl ((hpasses before).mp hbefore) hsome hres
    · intro before d after htext hbefore hnone
      cases before with
      | nil =>
        cases htext
        rw [hfind] at hnone
        cases hnone
      | cons e before =>
        cases htext
        rw [callsOf_cons hfind]
        exact h.unknown before d after rfl ((hpasses before).mp hbefore) hnone

theorem consumeCluster_separately_iff (p : Parser T) (start : List (Call T)) (position : Nat) (text : List T)
    (calls : List (Call T)) :
    (p.consumeCluster text calls).effect position = p.separately start position text calls ↔
      p.RegularFrom start calls text := by
  induction text generalizing calls with
  | nil =>
    have hreg : p.RegularFrom start calls [] := by
      constructor
      · intro before c after _ _ _ htext
        simp at htext
      · intro before c after htext
        simp at htext
    exact ⟨fun _ => hreg, fun _ => rfl⟩
  | cons c text ih =>
    rw [Parser.separately, consumeToken_short, Parser.consumeCluster]
    cases hfind : p.findShort c with
    | none =>
      rw [regularFrom_unknown hfind]
      constructor
      · intro heq
        exact (Effect.unknown.inj heq).symm
      · rintro rfl
        rfl
    | some found =>
      obtain ⟨a, i⟩ := found
      cases hconsume : a.consume calls none with
      | none => exact ⟨fun _ => regularFrom_thrown hfind hconsume start text, fun _ => by simp only [hconsume]; rfl⟩
      | some result =>
        rw [regularFrom_next hfind hconsume]
        by_cases hneg : result < 0
        · simp only [hconsume, if_pos hneg]
          constructor
          · intro heq
            exact absurd heq (effect_ne_missing _ _ _)
          · rintro ⟨hnonneg, _⟩
            omega
        · simp only [hconsume, if_neg hneg]
          rw [ih]
          constructor
          · intro h
            exact ⟨by omega, h⟩
          · exact fun h => h.2

theorem regularFrom_self_iff (p : Parser T) (calls : List (Call T)) (text : List T) :
    p.RegularFrom calls calls text ↔ p.Regular calls text := by
  have hnil {before : List T} (hpasses : p.Passes calls before) : calls = calls ++ p.callsOf before ↔ before = [] := by
    cases before with
    | nil => simp [Parser.callsOf]
    | cons c before =>
      obtain ⟨a, i, hfind, _⟩ := hpasses.head
      rw [callsOf_cons hfind]
      simp
  constructor
  · intro h
    exact ⟨h.noValue, fun before c after htext hpasses hnone =>
      (hnil hpasses).mp (h.unknown before c after htext hpasses hnone)⟩
  · intro h
    exact ⟨h.noValue, fun before c after htext hpasses hnone =>
      (hnil hpasses).mpr (h.unknownFirst before c after htext hpasses hnone)⟩

/-- A group means what its options mean if and only if no option in it asks for a value and only its first
character is unknown. -/
theorem group_separately_iff (p : Parser T) (group : Group p) (position : Nat) (rest : List (List T))
    (calls : List (Call T)) :
    (p.consumeToken false position group.token rest calls).effect =
        p.separately calls position group.token.tail calls ↔
      p.Regular calls group.token.tail := by
  rw [consumeToken_group, consumeCluster_separately_iff, regularFrom_self_iff]

/-- A flag `-a` and an option `-d` with a value. -/
def launchParser : Parser UInt16 where
  arguments :=
    [⟨.option none (some (ofChar 'a')), fun _ _ => some 0⟩,
      ⟨.option none (some (ofChar 'd')), fun _ value => some (if value.isSome then 1 else -1)⟩]
  slots := 0
  ignoreUnknownArgs := true
  positions i := by simp
  names a ha name short hshape := by
    simp only [mem_cons, not_mem_nil, or_false] at ha
    rcases ha with rfl | rfl
    · cases hshape
    · cases hshape

/-- `-ad` is accepted although `-d` has no value, and `-ax` is left to the caller although `-a` has taken
effect. -/
theorem group_not_separately :
    (launchParser.consumeToken false 0 (wide "-ad") [] []).effect = .accepted 0
      [⟨0, none, none⟩, ⟨1, none, none⟩] ∧
      launchParser.separately [] 0 (wide "ad") [] = .missing [⟨0, none, none⟩, ⟨1, none, none⟩] ∧
      (launchParser.consumeToken false 0 (wide "-ax") [] []).effect = .unknown [⟨0, none, none⟩] ∧
      launchParser.separately [] 0 (wide "ax") [] = .unknown [] := by
  decide

end WslPlus.CommandLine
