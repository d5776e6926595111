import WslPlus.Lib.CharType
import Mathlib.Data.List.Find

/-!
# The shared argument parser

`ArgumentParser` of CommandLine.h goes through the tokens of a command line. A token is an
option, with the values it consumes, or it goes to the positional argument at the current
position. The position moves on behind a token that does not start with a dash.
-/

namespace WslPlus.CommandLine

open List CharType

/-- A call of `Consume`: which argument, its position if it is positional, and the value. -/
structure Call (T : Type) where
  argument : Nat
  slot : Option Nat
  value : Option (List T)
deriving DecidableEq

/-- What an argument was added with. -/
inductive Shape (T : Type) where
  | option (longName : Option (List T)) (shortName : Option T)
  | positional (position : Nat)

/-- `Consume` may depend on the calls before. It returns the number of tokens it has used or -1, or throws. -/
structure Argument (T : Type) where
  shape : Shape T
  consume : List (Call T) → Option (List T) → Option Int

def Shape.slot {T : Type} : Shape T → Option Nat
  | .option _ _ => none
  | .positional position => some position

variable {T : Type} [CharType T] [DecidableEq T]

/-- `Matches` of a name, which is null behind the separator, at an index. -/
def Shape.matchesAt (name : Option (List T)) (index : Int) : Shape T → Bool
  | .option longName shortName =>
    match name with
    | none => false
    | some name => longName = some name || shortName.any fun c => name = [ofChar '-', c]
  | .positional position => (position : Int) = index

/-- The arguments, with one for each position below the number of slots. The name of an option is a
dash and more. -/
structure Parser (T : Type) [CharType T] where
  arguments : List (Argument T)
  slots : Nat
  ignoreUnknownArgs : Bool
  positions : ∀ i, (∃ a ∈ arguments, a.shape = .positional i) ↔ i < slots
  names : ∀ a ∈ arguments, ∀ name short, a.shape = .option (some name) short →
    name.head? = some (ofChar '-') ∧ name ≠ [ofChar '-']

inductive Error (T : Type) where
  | invalidCommandLine (token : List T)
  | missingArgument (token : List T)
  | consume
deriving DecidableEq

/-- How `Parse` ends, with the calls it has made. An unknown token that is ignored is left to the caller
with all that follows. -/
inductive Outcome (T : Type) where
  | parsed (calls : List (Call T))
  | stopped (calls : List (Call T)) (rest : List (List T))
  | thrown (error : Error T) (calls : List (Call T))
deriving DecidableEq

def Outcome.calls : Outcome T → List (Call T)
  | .parsed calls => calls
  | .stopped calls _ => calls
  | .thrown _ calls => calls

def Parser.find (p : Parser T) (name : Option (List T)) (index : Int) : Option (Argument T × Nat) :=
  p.arguments.zipIdx.find? fun e => e.1.shape.matchesAt name index

def Parser.findShort (p : Parser T) (c : T) : Option (Argument T × Nat) :=
  p.arguments.zipIdx.find? fun e => e.1.shape.slot.isNone && e.1.shape.matchesAt (some [ofChar '-', c]) (-1)

/-- A token like `-abc`. -/
def isCluster : List T → Bool
  | a :: b :: _ :: _ => a = ofChar '-' && b ≠ ofChar '-'
  | _ => false

inductive ClusterResult (T : Type) where
  | found (calls : List (Call T))
  | missing (calls : List (Call T))
  | thrown (calls : List (Call T))

/-- The loop over the characters of a cluster. What `Consume` returns is not looked at. -/
def Parser.consumeCluster (p : Parser T) : List T → List (Call T) → ClusterResult T
  | [], calls => .found calls
  | c :: rest, calls =>
    match p.findShort c with
    | none => .missing calls
    | some (a, i) =>
      match a.consume calls none with
      | none => .thrown (calls ++ [⟨i, none, none⟩])
      | some _ => p.consumeCluster rest (calls ++ [⟨i, none, none⟩])

inductive TokenResult (T : Type) where
  | ended (outcome : Outcome T)
  | next (position offset : Nat) (calls : List (Call T))

def Parser.reject (p : Parser T) (token : List T) (rest : List (List T)) (calls : List (Call T)) : Outcome T :=
  if p.ignoreUnknownArgs then .stopped calls (token :: rest) else .thrown (.invalidCommandLine token) calls

def advance (token : List T) (rest : List (List T)) (offset position : Nat) : Nat :=
  if offset ≤ rest.length ∧ token.head? ≠ some (ofChar '-') then position + 1 else position

def Parser.consumeWhole (p : Parser T) (stopParameters : Bool) (position : Nat) (token : List T)
    (rest : List (List T)) (calls : List (Call T)) : TokenResult T :=
  let index : Int := if token.head? = some (ofChar '-') ∧ token ≠ [ofChar '-'] ∧ stopParameters = false then -1
    else position
  match p.find (if stopParameters then none else some token) index with
  | none => .ended (p.reject token rest calls)
  | some (a, i) =>
    let value := if a.shape.slot.isSome then some token else rest.head?
    let calls' := calls ++ [⟨i, a.shape.slot, value⟩]
    match a.consume calls value with
    | none => .ended (.thrown .consume calls')
    | some result =>
      if result < 0 then .ended (.thrown (.missingArgument token) calls')
      else
        let offset := if a.shape.slot.isSome then 0 else result.toNat
        .next (advance token rest offset position) offset calls'

def Parser.consumeToken (p : Parser T) (stopParameters : Bool) (position : Nat) (token : List T)
    (rest : List (List T)) (calls : List (Call T)) : TokenResult T :=
  if stopParameters = false ∧ isCluster token = true then
    match p.consumeCluster token.tail calls with
    | .thrown calls => .ended (.thrown .consume calls)
    | .found calls => .next (advance token rest 0 position) 0 calls
    | .missing calls => p.consumeWhole stopParameters position token rest calls
  else p.consumeWhole stopParameters position token rest calls

/-- `--`. -/
def separator : List T := [ofChar '-', ofChar '-']

/-- The loop of `Parse`, with the number of tokens that an option has used. -/
def Parser.parseFrom (p : Parser T) (stopParameters : Bool) (position : Nat) :
    Nat → List (Call T) → List (List T) → Outcome T
  | _, calls, [] => .parsed calls
  | skip + 1, calls, _ :: rest => p.parseFrom stopParameters position skip calls rest
  | 0, calls, token :: rest =>
    if stopParameters = false ∧ token = separator then p.parseFrom true position 0 calls rest
    else
      match p.consumeToken stopParameters position token rest calls with
      | .ended outcome => outcome
      | .next position offset calls => p.parseFrom stopParameters position offset calls rest

/-- `Parse` of the tokens behind the name of the program. -/
def Parser.parse (p : Parser T) (tokens : List (List T)) : Outcome T := p.parseFrom false 0 0 [] tokens

/-- The tokens that have gone to positional arguments, with the positions. -/
def deliveries (calls : List (Call T)) : List (Nat × Option (List T)) :=
  calls.filterMap fun c => c.slot.map fun i => (i, c.value)

def inOrder (first : Nat) (tokens : List (List T)) : List (Nat × Option (List T)) :=
  (tokens.zipIdx first).map fun e => (e.2, some e.1)

def isPositional (token : List T) : Prop := token.head? ≠ some (ofChar '-') ∨ token = [ofChar '-']

instance (token : List T) : Decidable (isPositional token) := inferInstanceAs (Decidable (_ ∨ _))

/-- A command line of options that are accepted with their values, the separator and positional tokens,
with the list of the latter. The position and the calls are those of a parser that counts the
positional tokens, and the argument at the position accepts the token. -/
inductive WellFormed (p : Parser T) : Bool → Nat → List (Call T) → List (List T) → List (List T) → Prop where
  | done {stop : Bool} {i : Nat} {calls : List (Call T)} : WellFormed p stop i calls [] []
  | separator {i : Nat} {calls : List (Call T)} {rest positionals : List (List T)}
      (next : WellFormed p true i calls rest positionals) :
      WellFormed p false i calls (separator :: rest) positionals
  | option {i : Nat} {calls calls' : List (Call T)} {token : List T} {values rest positionals : List (List T)}
      (dash : ¬ isPositional token) (name : token ≠ CommandLine.separator)
      (accepted : p.consumeToken false i token (values ++ rest) calls = .next i values.length calls')
      (next : WellFormed p false i calls' rest positionals) :
      WellFormed p false i calls (token :: (values ++ rest)) positionals
  | positional {stop : Bool} {i k : Nat} {calls : List (Call T)} {a : Argument T} {result : Int} {token : List T}
      {rest positionals : List (List T)} (kind : stop = true ∨ isPositional token) (slot : i < p.slots)
      (found : p.find none i = some (a, k)) (accepted : a.consume calls (some token) = some result)
      (present : 0 ≤ result)
      (next : WellFormed p stop (i + 1) (calls ++ [⟨k, some i, some token⟩]) rest positionals) :
      WellFormed p stop i calls (token :: rest) (token :: positionals)
  | extra {stop : Bool} {i : Nat} {calls : List (Call T)} {token : List T} {rest positionals : List (List T)}
      (kind : stop = true ∨ isPositional token) (slot : p.slots ≤ i)
      (next : WellFormed p stop (i + 1) calls rest positionals) :
      WellFormed p stop i calls (token :: rest) (token :: positionals)

/-- The tokens from a position on have gone to their slots, behind those before; the first one without a slot
is rejected. -/
def DeliversFrom (p : Parser T) (first : Nat) (before : List (Nat × Option (List T)))
    (positionals : List (List T))
    (outcome : Outcome T) : Prop :=
  if first + positionals.length ≤ p.slots then
    ∃ calls, outcome = .parsed calls ∧ deliveries calls = before ++ inOrder first positionals
  else
    ∃ token rest calls, positionals[p.slots - first]? = some token ∧ outcome = p.reject token rest calls ∧
      deliveries calls = before ++ inOrder first (positionals.take (p.slots - first))

def Delivers (p : Parser T) (positionals : List (List T)) (outcome : Outcome T) : Prop :=
  DeliversFrom p 0 [] positionals outcome

def OrderedFrom (p : Parser T) (first : Nat) (positionals : List (List T)) : Prop :=
  ∀ k token, positionals[k]? = some token → first + k < p.slots → k + 1 < positionals.length →
    token.head? ≠ some (ofChar '-')

omit [CharType T] [DecidableEq T] in
theorem deliveries_append (calls calls' : List (Call T)) :
    deliveries (calls ++ calls') = deliveries calls ++ deliveries calls' := filterMap_append

def Extends (quiet : Bool) (calls calls' : List (Call T)) : Prop :=
  ∃ more, calls' = calls ++ more ∧ (quiet = true → deliveries more = [])

omit [CharType T] [DecidableEq T] in
theorem Extends.refl (quiet : Bool) (calls : List (Call T)) : Extends quiet calls calls :=
  ⟨[], (append_nil calls).symm, fun _ => rfl⟩

omit [CharType T] [DecidableEq T] in
theorem Extends.trans {quiet : Bool} {calls calls' calls'' : List (Call T)} (h : Extends quiet calls calls')
    (h' : Extends quiet calls' calls'') : Extends quiet calls calls'' := by
  obtain ⟨more, rfl, hmore⟩ := h
  obtain ⟨more', rfl, hmore'⟩ := h'
  refine ⟨more ++ more', append_assoc _ _ _, fun hquiet => ?_⟩
  rw [deliveries, filterMap_append]
  exact append_eq_nil_iff.mpr ⟨hmore hquiet, hmore' hquiet⟩

def TokenResult.calls : TokenResult T → List (Call T)
  | .ended outcome => outcome.calls
  | .next _ _ calls => calls

def ClusterResult.calls : ClusterResult T → List (Call T)
  | .found calls => calls
  | .missing calls => calls
  | .thrown calls => calls

theorem consumeCluster_extends (p : Parser T) (quiet : Bool) (text : List T) (calls : List (Call T)) :
    Extends quiet calls (p.consumeCluster text calls).calls := by
  induction text generalizing calls with
  | nil => exact Extends.refl quiet calls
  | cons c rest ih =>
    unfold Parser.consumeCluster
    split
    · exact Extends.refl quiet calls
    · rename_i a i hfind
      have hone : Extends quiet calls (calls ++ [⟨i, none, none⟩]) := ⟨_, rfl, fun _ => rfl⟩
      split
      · exact hone
      · exact hone.trans (ih _)

omit [DecidableEq T] in
theorem reject_calls (p : Parser T) (token : List T) (rest : List (List T)) (calls : List (Call T)) :
    (p.reject token rest calls).calls = calls := by
  unfold Parser.reject
  split <;> rfl

variable {token : List T}

omit [DecidableEq T] in
theorem head_of_option (h : ¬ isPositional token) : token.head? = some (ofChar '-') ∧ token ≠ [ofChar '-'] := by
  unfold isPositional at h
  push Not at h
  exact h

variable {p : Parser T} {a : Argument T} {i : Nat}

theorem matchesAt_of_find {name : Option (List T)} {index : Int}
    (h : p.find name index = some (a, i)) : a.shape.matchesAt name index = true ∧ a ∈ p.arguments := by
  have hmatch := find?_some h
  have hmem := mem_of_find?_eq_some h
  exact ⟨hmatch, (mem_zipIdx' hmem).2 ▸ getElem_mem _⟩

theorem slot_of_find {name : Option (List T)} (h : p.find name (-1) = some (a, i)) : a.shape.slot = none := by
  have hmatch := (matchesAt_of_find h).1
  cases hshape : a.shape with
  | option longName shortName => rfl
  | positional position =>
    rw [hshape, Shape.matchesAt] at hmatch
    have hindex := of_decide_eq_true hmatch
    omega

theorem consumeWhole_extends (p : Parser T) (quiet stop : Bool) (position : Nat) (token : List T)
    (rest : List (List T)) (calls : List (Call T))
    (hquiet : quiet = true → stop = false ∧ ¬ isPositional token) :
    Extends quiet calls (p.consumeWhole stop position token rest calls).calls := by
  unfold Parser.consumeWhole
  simp only
  generalize (if stop = true then none else some token) = name
  split
  · rw [TokenResult.calls, reject_calls]
    exact Extends.refl quiet calls
  · rename_i a i hfind
    have hone : ∀ value, Extends quiet calls (calls ++ [⟨i, a.shape.slot, value⟩]) := by
      intro value
      refine ⟨_, rfl, fun h => ?_⟩
      obtain ⟨hstop, hopt⟩ := hquiet h
      obtain ⟨hhead, hne⟩ := head_of_option hopt
      rw [if_pos ⟨hhead, hne, hstop⟩] at hfind
      rw [slot_of_find hfind]
      rfl
    split
    · exact hone _
    · split
      · exact hone _
      · exact hone _

theorem consumeToken_extends (p : Parser T) (quiet stop : Bool) (position : Nat) (token : List T)
    (rest : List (List T)) (calls : List (Call T))
    (hquiet : quiet = true → stop = false ∧ ¬ isPositional token) :
    Extends quiet calls (p.consumeToken stop position token rest calls).calls := by
  unfold Parser.consumeToken
  split
  · have hcluster := consumeCluster_extends p quiet token.tail calls
    split
    · rename_i calls' heq
      rw [heq] at hcluster
      exact hcluster
    · rename_i calls' heq
      rw [heq] at hcluster
      exact hcluster
    · rename_i calls' heq
      rw [heq] at hcluster
      exact hcluster.trans (consumeWhole_extends p quiet stop position token rest calls' hquiet)
  · exact consumeWhole_extends p quiet stop position token rest calls hquiet

theorem parseFrom_extends (p : Parser T) (tokens : List (List T)) (stop : Bool) (position skip : Nat)
    (calls : List (Call T)) : Extends false calls (p.parseFrom stop position skip calls tokens).calls := by
  induction tokens generalizing stop position skip calls with
  | nil =>
    rw [Parser.parseFrom]
    exact Extends.refl false calls
  | cons token rest ih =>
    cases skip with
    | succ skip =>
      rw [Parser.parseFrom]
      exact ih stop position skip calls
    | zero =>
      rw [Parser.parseFrom]
      split
      · exact ih true position 0 calls
      · have htoken := consumeToken_extends p false stop position token rest calls (fun h => by cases h)
        split
        · rename_i outcome heq
          rw [heq] at htoken
          exact htoken
        · rename_i position' offset calls' heq
          rw [heq] at htoken
          exact htoken.trans (ih stop position' offset calls')

theorem advance_option (h : ¬ isPositional token) (rest : List (List T)) (offset position : Nat) :
    advance token rest offset position = position := by
  rw [advance, if_neg fun hboth => hboth.2 (head_of_option h).1]

variable {calls calls' : List (Call T)}

theorem consumeWhole_option {i j position offset : Nat} {rest : List (List T)} (hopt : ¬ isPositional token)
    (h : p.consumeWhole false i token rest calls = .next position offset calls') :
    p.consumeWhole false j token rest calls = .next j offset calls' := by
  obtain ⟨hhead, hne⟩ := head_of_option hopt
  unfold Parser.consumeWhole at h ⊢
  simp only [hhead, hne, ne_eq, not_false_eq_true, and_self, if_true, advance_option hopt] at h ⊢
  split at h
  · cases h
  · split at h
    · cases h
    · split at h
      · cases h
      · cases h
        rename_i hneg
        simp only [if_neg hneg]

theorem consumeToken_option {i j position offset : Nat} {rest : List (List T)} (hopt : ¬ isPositional token)
    (h : p.consumeToken false i token rest calls = .next position offset calls') :
    p.consumeToken false j token rest calls = .next j offset calls' := by
  unfold Parser.consumeToken at h ⊢
  simp only [advance_option hopt] at h ⊢
  split
  · rename_i hcluster
    rw [if_pos hcluster] at h
    split at h
    · cases h
    · cases h
      rfl
    · exact consumeWhole_option hopt h
  · rename_i hcluster
    rw [if_neg hcluster] at h
    exact consumeWhole_option hopt h

theorem matchesAt_positional (htoken : isPositional token)
    (ha : a ∈ p.arguments) (index : Int) :
    a.shape.matchesAt (some token) index = a.shape.matchesAt none index := by
  cases hshape : a.shape with
  | positional position => rfl
  | option longName shortName =>
    have hlong : longName ≠ some token := by
      rintro rfl
      obtain ⟨hhead, hne⟩ := p.names a ha token shortName hshape
      exact htoken.elim (fun h => h hhead) hne
    have hshort : ∀ c, token ≠ [ofChar '-', c] := by
      rintro c rfl
      rcases htoken with h | h
      · exact h rfl
      · cases h
    simp [Shape.matchesAt, hlong, hshort]

variable {stop : Bool}

theorem find_positional (hkind : stop = true ∨ isPositional token)
    (index : Int) : p.find (if stop then none else some token) index = p.find none index := by
  cases stop with
  | true => rfl
  | false =>
    have htoken : isPositional token := hkind.resolve_left Bool.false_ne_true
    have hmem : ∀ e ∈ p.arguments.zipIdx, e.1 ∈ p.arguments := fun e he =>
      (mem_zipIdx' he).2 ▸ getElem_mem _
    exact find?_congr fun e he => matchesAt_positional htoken (hmem e he) index

theorem slot_of_find_none {k : Nat} (h : p.find none i = some (a, k)) : a.shape = .positional i := by
  have hmatch := (matchesAt_of_find h).1
  cases hshape : a.shape with
  | option longName shortName =>
    rw [hshape] at hmatch
    cases hmatch
  | positional position =>
    rw [hshape, Shape.matchesAt] at hmatch
    have hindex := of_decide_eq_true hmatch
    rw [Int.ofNat_inj.mp hindex]

theorem find_of_lt (hi : i < p.slots) : ∃ a k, p.find none i = some (a, k) := by
  obtain ⟨a, ha, hshape⟩ := (p.positions i).mpr hi
  cases hfind : p.find none i with
  | some e => exact ⟨e.1, e.2, rfl⟩
  | none =>
    obtain ⟨k, hk⟩ := getElem?_of_mem ha
    have hnot := find?_eq_none.mp hfind (a, k) (mk_mem_zipIdx_iff_getElem?.mpr hk)
    simp [hshape, Shape.matchesAt] at hnot

theorem find_of_le (hi : p.slots ≤ i) : p.find none i = none := by
  cases hfind : p.find none i with
  | none => rfl
  | some e =>
    have hlt := (p.positions i).mp ⟨e.1, (matchesAt_of_find hfind).2, slot_of_find_none hfind⟩
    omega

theorem head_of_cluster (h : isCluster token = true) :
    token.head? = some (ofChar '-') ∧ token ≠ [ofChar '-'] := by
  unfold isCluster at h
  split at h
  · rw [Bool.and_eq_true, decide_eq_true_eq] at h
    rw [h.1]
    exact ⟨rfl, by simp⟩
  · cases h

theorem consumeToken_positional (rest : List (List T))
    (calls : List (Call T)) (hkind : stop = true ∨ isPositional token) :
    p.consumeToken stop i token rest calls =
      match p.find none i with
      | none => .ended (p.reject token rest calls)
      | some (a, k) =>
        match a.consume calls (some token) with
        | none => .ended (.thrown .consume (calls ++ [⟨k, some i, some token⟩]))
        | some result =>
          if result < 0 then .ended (.thrown (.missingArgument token) (calls ++ [⟨k, some i, some token⟩]))
          else .next (advance token rest 0 i) 0 (calls ++ [⟨k, some i, some token⟩]) := by
  have hcluster : ¬ (stop = false ∧ isCluster token = true) := by
    rintro ⟨rfl, hcluster⟩
    obtain ⟨hhead, hne⟩ := head_of_cluster hcluster
    rcases hkind with h | h | h
    · cases h
    · exact h hhead
    · exact hne h
  have hindex : ¬ (token.head? = some (ofChar '-') ∧ token ≠ [ofChar '-'] ∧ stop = false) := by
    rintro ⟨hhead, hne, rfl⟩
    rcases hkind with h | h | h
    · cases h
    · exact h hhead
    · exact hne h
  rw [Parser.consumeToken, if_neg hcluster, Parser.consumeWhole]
  simp only [if_neg hindex, find_positional hkind]
  cases hfind : p.find none i with
  | none => rfl
  | some e =>
    obtain ⟨a, k⟩ := e
    have hslot : a.shape.slot = some i := by rw [slot_of_find_none hfind, Shape.slot]
    simp only [hslot, Option.isSome_some, if_true]

theorem parseFrom_skip (p : Parser T) (stop : Bool) (i : Nat) (calls : List (Call T))
    (values rest : List (List T)) :
    p.parseFrom stop i values.length calls (values ++ rest) = p.parseFrom stop i 0 calls rest := by
  induction values with
  | nil => rfl
  | cons value values ih =>
    rw [length_cons, cons_append, Parser.parseFrom]
    exact ih

omit [DecidableEq T] in
theorem ne_separator (hkind : stop = true ∨ isPositional token) : ¬ (stop = false ∧ token = separator) := by
  rintro ⟨rfl, rfl⟩
  rcases hkind with h | h | h
  · cases h
  · exact h rfl
  · cases h

theorem parseFrom_separator (p : Parser T) (i : Nat) (calls : List (Call T)) (rest : List (List T)) :
    p.parseFrom false i 0 calls (separator :: rest) = p.parseFrom true i 0 calls rest := by
  rw [Parser.parseFrom, if_pos ⟨rfl, rfl⟩]

theorem parseFrom_option
    {values rest : List (List T)} (hdash : ¬ isPositional token) (hname : token ≠ separator)
    (haccepted : p.consumeToken false i token (values ++ rest) calls = .next i values.length calls') (j : Nat) :
    p.parseFrom false j 0 calls (token :: (values ++ rest)) = p.parseFrom false j 0 calls' rest := by
  rw [Parser.parseFrom, if_neg fun h => hname h.2, consumeToken_option hdash haccepted]
  exact parseFrom_skip p false j calls' values rest

variable {tokens positionals : List (List T)}

theorem parseFrom_position {j : Nat} {calls : List (Call T)}
    (h : WellFormed p stop j calls tokens positionals) (hnone : positionals = [])
    (i i' : Nat) : p.parseFrom stop i 0 calls tokens = p.parseFrom stop i' 0 calls tokens := by
  induction h with
  | done => rw [Parser.parseFrom, Parser.parseFrom]
  | separator next ih => rw [parseFrom_separator, parseFrom_separator, ih hnone]
  | option dash name accepted next ih =>
    rw [parseFrom_option dash name accepted, parseFrom_option dash name accepted, ih hnone]
  | positional kind slot found accepted present next ih => cases hnone
  | extra kind slot next ih => cases hnone

omit [CharType T] [DecidableEq T] in
theorem deliveries_of_extends (h : Extends true calls calls') : deliveries calls' = deliveries calls := by
  obtain ⟨more, rfl, hmore⟩ := h
  rw [deliveries_append, hmore rfl, append_nil]

theorem deliveries_option {values rest : List (List T)} (hdash : ¬ isPositional token)
    (haccepted : p.consumeToken false i token (values ++ rest) calls = .next i values.length calls') :
    deliveries calls' = deliveries calls := by
  have hextends := consumeToken_extends p true false i token (values ++ rest) calls fun _ => ⟨rfl, hdash⟩
  rw [haccepted] at hextends
  exact deliveries_of_extends hextends

theorem first_delivery {j : Nat} {calls : List (Call T)} (h : WellFormed p stop j calls tokens positionals)
    {others : List (List T)} (hfirst : positionals = token :: others) (hi : i < p.slots) :
    ∃ more, deliveries (p.parseFrom stop i 0 calls tokens).calls = deliveries calls ++
    (i, some token) :: more := by
  have hpositional : ∀ (stop : Bool) (calls : List (Call T)) (rest : List (List T)),
      stop = true ∨ isPositional token →
        ∃ more, deliveries (p.parseFrom stop i 0 calls (token :: rest)).calls =
          deliveries calls ++ (i, some token) :: more := by
    intro stop calls rest kind
    obtain ⟨a, k, hfind⟩ := find_of_lt hi
    have hall : Extends false (calls ++ [⟨k, some i, some token⟩])
        (p.parseFrom stop i 0 calls (token :: rest)).calls := by
      rw [Parser.parseFrom, if_neg (ne_separator kind), consumeToken_positional rest calls kind, hfind]
      simp only
      cases a.consume calls (some token) with
      | none => exact Extends.refl false _
      | some result =>
        by_cases hneg : result < 0
        · simp only [if_pos hneg]
          exact Extends.refl false _
        · simp only [if_neg hneg]
          exact parseFrom_extends p rest stop _ 0 _
    obtain ⟨more, hmore, -⟩ := hall
    refine ⟨deliveries more, ?_⟩
    rw [hmore, deliveries_append, deliveries_append, append_assoc]
    rfl
  induction h with
  | done => cases hfirst
  | separator next ih =>
    rw [parseFrom_separator]
    exact ih hfirst
  | option dash name accepted next ih =>
    rw [parseFrom_option dash name accepted, ← deliveries_option dash accepted]
    exact ih hfirst
  | positional kind slot found accepted present next ih =>
    cases hfirst
    exact hpositional _ _ _ kind
  | extra kind slot next ih =>
    cases hfirst
    exact hpositional _ _ _ kind

omit [CharType T] [DecidableEq T] in
theorem inOrder_cons (first : Nat) (token : List T) (tokens : List (List T)) :
    inOrder first (token :: tokens) = (first, some token) :: inOrder (first + 1) tokens := rfl

omit [DecidableEq T] in
theorem deliversFrom_cons (hi : i < p.slots) (before : List (Nat × Option (List T)))
    (token : List T) (others : List (List T)) (outcome : Outcome T) :
    DeliversFrom p i before (token :: others) outcome ↔
      DeliversFrom p (i + 1) (before ++ [(i, some token)]) others outcome := by
  have hsub : p.slots - i = p.slots - (i + 1) + 1 := by omega
  unfold DeliversFrom
  rw [length_cons, hsub, take_succ_cons, inOrder_cons, inOrder_cons, getElem?_cons_succ]
  by_cases hlen : i + 1 + others.length ≤ p.slots
  · rw [if_pos (by omega), if_pos hlen]
    simp
  · rw [if_neg (by omega), if_neg hlen]
    simp

omit [DecidableEq T] in
theorem orderedFrom_cons (hi : i < p.slots) (token : List T) (others : List (List T)) :
    OrderedFrom p i (token :: others) ↔
      (others ≠ [] → token.head? ≠ some (ofChar '-')) ∧ OrderedFrom p (i + 1) others := by
  constructor
  · intro h
    constructor
    · intro hne
      exact h 0 token rfl hi (by simpa using length_pos_iff.mpr hne)
    · intro k token' hk hslot hlast
      exact h (k + 1) token' hk (by omega) (by simpa using hlast)
  · rintro ⟨hfirst, hothers⟩ k token' hk hslot hlast
    cases k with
    | zero =>
      cases hk
      refine hfirst fun hnil => ?_
      simp [hnil] at hlast
    | succ k => exact hothers k token' hk (by omega) (by simpa using hlast)

theorem deliversFrom_iff {calls : List (Call T)} (h : WellFormed p stop i calls tokens positionals)
    (hi : i ≤ p.slots) :
    DeliversFrom p i (deliveries calls) positionals (p.parseFrom stop i 0 calls tokens) ↔
      OrderedFrom p i positionals := by
  induction h with
  | @done stop i calls =>
    refine ⟨fun _ k token hk => ?_, fun _ => ?_⟩
    · cases hk
    · rw [DeliversFrom, if_pos (by simpa using hi), Parser.parseFrom]
      exact ⟨calls, rfl, (append_nil _).symm⟩
  | separator next ih =>
    rw [parseFrom_separator]
    exact ih hi
  | option dash name accepted next ih =>
    rw [parseFrom_option dash name accepted, ← deliveries_option dash accepted]
    exact ih hi
  | @positional stop i k calls a result token rest positionals kind slot found accepted present next ih =>
    have hparse : p.parseFrom stop i 0 calls (token :: rest) =
        p.parseFrom stop (advance token rest 0 i) 0 (calls ++ [⟨k, some i, some token⟩]) rest := by
      rw [Parser.parseFrom, if_neg (ne_separator kind), consumeToken_positional rest calls kind, found]
      simp only [accepted, if_neg (not_lt.mpr present)]
    have hdel : deliveries (calls ++ [⟨k, some i, some token⟩]) = deliveries calls ++ [(i, some token)] :=
      deliveries_append _ _
    have ih := ih slot
    rw [hdel] at ih
    rw [deliversFrom_cons slot, orderedFrom_cons slot, hparse]
    by_cases hdash : token.head? = some (ofChar '-')
    · -- The position stays, which shows at the next positional token if there is one.
      have hadvance : advance token rest 0 i = i := by rw [advance, if_neg fun hboth => hboth.2 hdash]
      rw [hadvance]
      cases positionals with
      | nil =>
        rw [parseFrom_position next rfl i (i + 1), ih]
        simp
      | cons other others =>
        obtain ⟨more, hmore⟩ := first_delivery next rfl slot
        rw [hdel] at hmore
        refine ⟨fun hdelivers => ?_, fun hordered => (hordered.1 (cons_ne_nil _ _) hdash).elim⟩
        exfalso
        unfold DeliversFrom at hdelivers
        split at hdelivers
        · obtain ⟨calls', hout, hcalls⟩ := hdelivers
          rw [hout, Outcome.calls, hcalls] at hmore
          have heq := append_cancel_left hmore
          rw [inOrder_cons] at heq
          have hindex := congrArg Prod.fst (List.cons.inj heq).1
          simp at hindex
        · obtain ⟨token', rest', calls', -, hout, hcalls⟩ := hdelivers
          rw [hout, reject_calls, hcalls] at hmore
          have heq := append_cancel_left hmore
          cases hslots : p.slots - (i + 1) with
          | zero =>
            rw [hslots] at heq
            cases heq
          | succ m =>
            rw [hslots, take_succ_cons, inOrder_cons] at heq
            have hindex := congrArg Prod.fst (List.cons.inj heq).1
            simp at hindex
    · have hadvance : advance token rest 0 i = i + 1 := by rw [advance, if_pos ⟨Nat.zero_le _, hdash⟩]
      rw [hadvance, ih]
      exact ⟨fun hothers => ⟨fun _ => hdash, hothers⟩, fun hboth => hboth.2⟩
  | @extra stop i calls token rest positionals kind slot next ih =>
    have heq : i = p.slots := le_antisymm hi slot
    refine ⟨fun _ k token' _ hslot => ?_, fun _ => ?_⟩
    · omega
    · rw [DeliversFrom, if_neg (by simp; omega), Parser.parseFrom, if_neg (ne_separator kind),
        consumeToken_positional rest calls kind, find_of_le slot]
      refine ⟨token, rest, calls, ?_, rfl, ?_⟩
      · simp [heq]
      · simp [heq, inOrder]

/-- For every command line of options, values, the separator and positional tokens, the tokens arrive in order,
and one too many is rejected, exactly if no token with a slot starts with a dash, but for the last one. -/
theorem parse_delivers_iff (p : Parser T) (tokens positionals : List (List T))
    (h : WellFormed p false 0 [] tokens positionals) :
    Delivers p positionals (p.parse tokens) ↔ OrderedFrom p 0 positionals :=
  deliversFrom_iff h (Nat.zero_le _)

def wide (text : String) : List UInt16 := text.toList.map ofChar

/-- The parser of `wsl --export`, without its format. -/
def exportParser : Parser UInt16 where
  arguments :=
    [⟨.positional 0, fun _ value => some (if value.isSome then 1 else -1)⟩,
      ⟨.positional 1, fun _ value => some (if value.isSome then 1 else -1)⟩,
      ⟨.option (some (wide "--vhd")) none, fun _ _ => some 0⟩]
  slots := 2
  ignoreUnknownArgs := false
  positions i := by
    simp
    omega
  names a ha name short hshape := by
    simp only [mem_cons, not_mem_nil, or_false] at ha
    rcases ha with rfl | rfl | rfl
    · cases hshape
    · cases hshape
    · cases hshape
      decide

/-- `wsl --export --vhd Ubuntu -`. -/
theorem parse_export_delivers :
    OrderedFrom exportParser 0 [wide "Ubuntu", wide "-"] ∧
      Delivers exportParser [wide "Ubuntu", wide "-"]
      (exportParser.parse [wide "--vhd", wide "Ubuntu", wide "-"]) := by
  have hordered : OrderedFrom exportParser 0 [wide "Ubuntu", wide "-"] := by
    intro k token hk hslot hlast
    have hzero : k = 0 := by
      simp only [length_cons, length_nil] at hlast
      omega
    subst hzero
    cases hk
    decide
  have hslots : WellFormed exportParser false 0 [⟨2, none, some (wide "Ubuntu")⟩] [wide "Ubuntu", wide "-"]
      [wide "Ubuntu", wide "-"] :=
    .positional (Or.inr (by decide)) (by decide) rfl rfl (by decide)
      (.positional (Or.inr (by decide)) (by decide) rfl rfl (by decide) .done)
  have hformed : WellFormed exportParser false 0 [] (wide "--vhd" :: ([] ++ [wide "Ubuntu", wide "-"]))
      [wide "Ubuntu", wide "-"] := .option (by decide) (by decide) rfl hslots
  exact ⟨hordered, (parse_delivers_iff exportParser _ _ hformed).mpr hordered⟩

/-- `wsl --export -- -old old.tar`: both tokens go to the first slot. -/
theorem parse_export_dash :
    WellFormed exportParser false 0 [] [wide "--", wide "-old", wide "old.tar"] [wide "-old", wide "old.tar"] ∧
      exportParser.parse [wide "--", wide "-old", wide "old.tar"] =
        .parsed [⟨0, some 0, some (wide "-old")⟩, ⟨0, some 0, some (wide "old.tar")⟩] ∧
      ¬ Delivers exportParser [wide "-old", wide "old.tar"]
        (exportParser.parse [wide "--", wide "-old", wide "old.tar"]) := by
  have hparse : exportParser.parse [wide "--", wide "-old", wide "old.tar"] =
      .parsed [⟨0, some 0, some (wide "-old")⟩, ⟨0, some 0, some (wide "old.tar")⟩] := by decide
  refine ⟨?_, hparse, ?_⟩
  · exact .separator (.positional (Or.inl rfl) (by decide) rfl rfl (by decide)
      (.positional (Or.inl rfl) (by decide) rfl rfl (by decide) .done))
  · rw [hparse, Delivers, DeliversFrom, if_pos (by decide)]
    rintro ⟨calls, hcalls, hdeliveries⟩
    cases hcalls
    revert hdeliveries
    decide

end WslPlus.CommandLine
