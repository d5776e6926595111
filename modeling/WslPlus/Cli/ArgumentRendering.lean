import Mathlib.Data.List.Nodup
import WslPlus.Cli.ArgumentParser

/-!
# Renderings of arguments

A list of settings is written as tokens in one of several ways: options by their name or by
their alias, with the value in the next token or behind a `=`, and flags in one token. The
parser reads back what the settings say.
-/

namespace WslPlus.Cli

open List Text

section Spec

variable (τ : Type)

/-- The arguments of a command. Names and aliases tell the options apart, and cannot be taken for dashes
or for the beginning of a value. -/
structure Table where
  arguments : List (Argument τ)
  types : (arguments.map Argument.type).Nodup
  names : ∀ a ∈ arguments, ∀ b ∈ arguments, a.isOption = true → b.isOption = true → a.name = b.name → a = b
  aliases : ∀ a ∈ arguments, ∀ b ∈ arguments, a.isOption = true → b.isOption = true → a.aliasName ≠ [] →
    a.aliasName <+: b.aliasName → a = b
  plainName : ∀ a ∈ arguments, a.isOption = true → a.name ≠ [] ∧ '=' ∉ a.name ∧ a.name.head? ≠ some '-'
  plainAlias : ∀ a ∈ arguments, a.isOption = true → a.aliasName.head? ≠ some '-' ∧ a.aliasName.head? ≠ some '='

inductive Setting where
  | value (arg : Argument τ) (text : List Char)
  | flag (arg : Argument τ) (value : Bool)
  | positional (text : List Char)

end Spec

/-- A value that is wrapped in double quotes, which are not part of it behind a `=`. -/
def Quoted (value : List Char) : Prop :=
  2 ≤ value.length ∧ value.head? = some '"' ∧ value.getLast? = some '"'

def IsBool (value : Bool) (text : List Char) : Prop := parseBool (stripSurroundingQuotes text) true = some value

variable {τ : Type}

structure Table.Has (T : Table τ) (kind : Kind) (arg : Argument τ) : Prop where
  mem : arg ∈ T.arguments
  kind : arg.kind = kind

structure Table.HasAlias (T : Table τ) (kind : Kind) (arg : Argument τ) : Prop extends T.Has kind arg where
  aliased : arg.aliasName ≠ []

def longName (arg : Argument τ) : List Char := '-' :: '-' :: arg.name

def aliasChain (flags : List (Argument τ)) (last : Argument τ) : List Char :=
  '-' :: (flags.flatMap Argument.aliasName ++ last.aliasName)

def flagsSet (flags : List (Argument τ)) : List (Setting τ) := flags.map fun arg => .flag arg true

/-- Settings that are written together, and their tokens. -/
inductive Rendered (T : Table τ) : List (Setting τ) → List (List Char) → Prop
  | positional {text : List Char} (hdash : text.head? ≠ some '-') : Rendered T [.positional text] [text]
  | value {arg : Argument τ} (harg : T.Has .value arg) (text : List Char) :
      Rendered T [.value arg text] [longName arg, text]
  | valueAdjoined {arg : Argument τ} (harg : T.Has .value arg) {text : List Char} (hquoted : ¬ Quoted text) :
      Rendered T [.value arg text] [longName arg ++ '=' :: text]
  | flag {arg : Argument τ} (harg : T.Has .flag arg) : Rendered T [.flag arg true] [longName arg]
  | flagAdjoined {arg : Argument τ} (harg : T.Has .flag arg) {value : Bool} {text : List Char}
      (hbool : IsBool value text) : Rendered T [.flag arg value] [longName arg ++ '=' :: text]
  | chain {flags : List (Argument τ)} (hflags : ∀ arg ∈ flags, T.HasAlias .flag arg) {arg : Argument τ}
      (harg : T.HasAlias .flag arg) : Rendered T (flagsSet flags ++ [Setting.flag arg true]) [aliasChain flags arg]
  | chainAdjoined {flags : List (Argument τ)} (hflags : ∀ arg ∈ flags, T.HasAlias .flag arg) {arg : Argument τ}
      (harg : T.HasAlias .flag arg) {value : Bool} {text : List Char} (hbool : IsBool value text) :
      Rendered T (flagsSet flags ++ [Setting.flag arg value]) [aliasChain flags arg ++ '=' :: text]
  | chainValue {flags : List (Argument τ)} (hflags : ∀ arg ∈ flags, T.HasAlias .flag arg) {arg : Argument τ}
      (harg : T.HasAlias .value arg) (text : List Char) :
      Rendered T (flagsSet flags ++ [Setting.value arg text]) [aliasChain flags arg, text]
  | chainValueAdjoined {flags : List (Argument τ)} (hflags : ∀ arg ∈ flags, T.HasAlias .flag arg) {arg : Argument τ}
      (harg : T.HasAlias .value arg) {text : List Char} (hquoted : ¬ Quoted text) :
      Rendered T (flagsSet flags ++ [Setting.value arg text]) [aliasChain flags arg ++ '=' :: text]

inductive Rendering (T : Table τ) : List (Setting τ) → List (List Char) → Prop
  | nil : Rendering T [] []
  | append {group settings : List (Setting τ)} {tokens tokens' : List (List Char)} (hgroup : Rendered T group tokens)
      (hrest : Rendering T settings tokens') : Rendering T (group ++ settings) (tokens ++ tokens')

def Setting.text? : Setting τ → Option (List Char)
  | .positional text => some text
  | .value .. => none
  | .flag .. => none

def positionals (settings : List (Setting τ)) : List (List Char) := settings.filterMap Setting.text?

variable [DecidableEq τ]

def Setting.valueFor (type : τ) : Setting τ → Option Value
  | .value arg text => if arg.type = type then some (.text text) else none
  | .flag arg on => if arg.type = type then some (.flag on) else none
  | .positional _ => none

def valuesFor (type : τ) (settings : List (Setting τ)) : List Value :=
  settings.filterMap (Setting.valueFor type)

def fill : List (Argument τ) → List (List Char) → List (τ × List Char)
  | [], _ => []
  | arg :: slots, texts =>
    if arg.limit = .unlimited then texts.map (arg.type, ·)
    else
      match texts with
      | [] => []
      | text :: texts => (arg.type, text) :: fill slots texts

namespace Table

def parser (T : Table τ) (stopOnUnknown : Bool) : Parser τ :=
  { arguments := T.arguments, optionsOnly := false, stopOnUnknown }

def slots (T : Table τ) : List (Argument τ) := T.arguments.filter fun arg => arg.kind = .positional

def forwards (T : Table τ) : List (Argument τ) := T.arguments.filter fun arg => arg.kind = .forward

def optionValues (overridable : List τ) (args : ArgMap τ) (settings : List (Setting τ))
    (arg : Argument τ) : List Value :=
  let values := valuesFor arg.type settings
  if values = [] then args arg.type
  else if arg.kind = .value ∧ arg.limit = .unlimited then
    (if arg.type ∈ overridable then [] else args arg.type) ++ values
  else values.getLast?.toList

def slotValues (T : Table τ) (settings : List (Setting τ)) (type : τ) : List Value :=
  ((fill T.slots (positionals settings)).filter fun entry => entry.1 = type).map fun entry => .text entry.2

def parsed (T : Table τ) (overridable : List τ) (args : ArgMap τ) (settings : List (Setting τ))
    (tail : List (List Char)) : ArgMap τ := fun type =>
  match T.arguments.find? fun arg => arg.type = type with
  | none => args type
  | some arg =>
    match arg.kind with
    | .flag | .value => optionValues overridable args settings arg
    | .positional => T.slotValues settings type
    | .forward => if T.forwards.head? = some arg ∧ tail ≠ [] then [.forwarded tail] else []

end Table

theorem find?_eq_some_of_unique {α : Type} {p : α → Bool} {l : List α} {a : α} (ha : a ∈ l) (hp : p a = true)
    (hunique : ∀ b ∈ l, p b = true → b = a) : l.find? p = some a := by
  cases h : l.find? p with
  | none =>
    have hnot := find?_eq_none.mp h a ha
    exact (hnot hp).elim
  | some b => rw [hunique b (mem_of_find?_eq_some h) (find?_some h)]

theorem stripSurroundingQuotes_of_not {value : List Char} (h : ¬ Quoted value) :
    stripSurroundingQuotes value = value :=
  if_neg h

namespace Table

variable {arg : Argument τ}

omit [DecidableEq τ] in
theorem Has.isOption {T : Table τ} (h : T.Has .flag arg ∨ T.Has .value arg) :
    arg ∈ T.arguments ∧ arg.isOption = true := by
  rcases h with h | h
  · exact ⟨h.mem, by rw [Argument.isOption, h.kind]; rfl⟩
  · exact ⟨h.mem, by rw [Argument.isOption, h.kind]; rfl⟩

theorem findArgument_eq (T : Table τ) (harg : arg ∈ T.arguments) (stop : Bool) :
    (T.parser stop).findArgument arg.type = some arg := by
  apply find?_eq_some_of_unique harg (decide_eq_true rfl)
  intro b hb htype
  exact inj_on_of_nodup_map T.types hb harg (of_decide_eq_true htype)

omit [DecidableEq τ] in
theorem find_name (T : Table τ) (harg : arg ∈ T.arguments) (hopt : arg.isOption = true)
    (stop : Bool) : (T.parser stop).standardArgs.find? (fun b => b.name = arg.name) = some arg := by
  apply find?_eq_some_of_unique (mem_filter.mpr ⟨harg, hopt⟩) (decide_eq_true rfl)
  intro b hb hname
  obtain ⟨hb, hboption⟩ := mem_filter.mp hb
  exact T.names b hb arg harg hboption hopt (of_decide_eq_true hname)

omit [DecidableEq τ] in
theorem findArgumentByAlias_eq (T : Table τ) (harg : arg ∈ T.arguments)
    (hopt : arg.isOption = true) (haliased : arg.aliasName ≠ []) (stop : Bool) (text : List Char) :
    (T.parser stop).findArgumentByAlias (arg.aliasName ++ text) = some (arg, text) := by
  have hfind : (T.parser stop).standardArgs.find? (fun b => b.aliasName ≠ [] &&
      b.aliasName.isPrefixOf (arg.aliasName ++ text)) = some arg := by
    apply find?_eq_some_of_unique (mem_filter.mpr ⟨harg, hopt⟩)
    · simp [haliased]
    · intro b hb hmatch
      obtain ⟨hb, hboption⟩ := mem_filter.mp hb
      simp only [ne_eq, Bool.and_eq_true, decide_eq_true_eq, isPrefixOf_iff_prefix] at hmatch
      obtain ⟨hbaliased, hstarts⟩ := hmatch
      -- Both aliases start the text, so that one starts the other.
      rcases prefix_or_prefix_of_prefix hstarts (prefix_append arg.aliasName text) with h | h
      · exact T.aliases b hb arg harg hboption hopt hbaliased h
      · exact (T.aliases arg harg b hb hopt hboption haliased h).symm
  rw [Parser.findArgumentByAlias, hfind, Option.map_some, drop_left]

end Table

section Options

variable {T : Table τ} {p : Parser τ} {m : Machine τ}

/-- Options are still read. -/
structure Open (p : Parser τ) (m : Machine τ) : Prop where
  pending : m.pending = none
  anchor : p.forwardArgs = [] ∨ m.anchor = none

theorem Open.stepInternal_eq (h : Open p m) (currArg : List Char) (rest : List (List Char)) :
    p.stepInternal m currArg rest = p.processToken m currArg := by
  unfold Parser.stepInternal
  rw [h.pending]
  rcases h.anchor with hforward | hanchor
  · simp only [hforward]
  · simp only [hanchor]
    split
    · rename_i hnone
      cases hnone
    · rfl

theorem Open.run_of_next (h : Open p m) {currArg : List Char} {m' : Machine τ}
    (hnext : p.processToken m currArg = .next m') (rest : List (List Char)) :
    p.run m (currArg :: rest) = p.run m' rest := by
  rw [Parser.run, h.stepInternal_eq, hnext]

theorem run_pending {type : τ} {arg text : List Char} (hpend : m.pending = none) (rest : List (List Char)) :
    p.run { m with pending := some (type, arg) } (text :: rest) = p.run (m.addValue p type text) rest := by
  have hm : { m with pending := none } = m := by
    rw [← hpend]
  simp only [Parser.run, Parser.stepInternal]
  rw [hm]

def Ends (more : List Char) : Prop := more = [] ∨ ∃ value, more = '=' :: value

variable {arg : Argument τ}

theorem processToken_name (harg : arg ∈ T.arguments) (hopt : arg.isOption = true) (stop : Bool)
    {more : List Char} (hmore : Ends more) (m : Machine τ) :
    (T.parser stop).processToken m (longName arg ++ more) =
      (T.parser stop).processFound (longName arg ++ more) arg more m fun _ m => .next m := by
  obtain ⟨hname, hsplit, hdash⟩ := T.plainName arg harg hopt
  have hne : arg.name ++ more ≠ [] := by simp [hname]
  have hdrop : (arg.name ++ more).dropWhile (· = '-') = arg.name ++ more := by
    cases hcons : arg.name with
    | nil => exact (hname hcons).elim
    | cons c rest =>
      rw [hcons] at hdash
      apply dropWhile_cons_of_neg
      simpa using hdash
  have hplain : ∀ c ∈ arg.name, decide (c ≠ '=') = true := by
    intro c hc
    apply decide_eq_true
    rintro rfl
    exact hsplit hc
  have htake : (arg.name ++ more).takeWhile (· ≠ '=') = arg.name := by
    rw [takeWhile_append_of_pos hplain]
    rcases hmore with rfl | ⟨value, rfl⟩
    · exact append_nil _
    · rw [takeWhile_cons_of_neg (by simp), append_nil]
  have hvalue : (arg.name ++ more).dropWhile (· ≠ '=') = more := by
    rw [dropWhile_append_of_pos hplain]
    rcases hmore with rfl | ⟨value, rfl⟩
    · rfl
    · exact dropWhile_cons_of_neg (by simp)
  have hkind : ∀ {β : Type} (x y : β), (if arg.kind = .flag then x else y) = if arg.kind = .value then y else x := by
    intro β x y
    rw [Argument.isOption] at hopt
    cases hkind : arg.kind with
    | flag => rfl
    | value => rfl
    | positional => simp [hkind] at hopt
    | forward => simp [hkind] at hopt
  change (T.parser stop).processNamed m (longName arg ++ more) (arg.name ++ more) = _
  unfold Parser.processNamed Parser.processFound
  simp only [if_neg hne, hdrop, htake, hvalue, T.find_name harg hopt stop]
  rcases hmore with rfl | ⟨value, rfl⟩
  · exact hkind _ _
  · exact hkind _ _

theorem processAliases_flag {arg arg' : Argument τ} (hkind : arg.kind = .flag) (harg' : arg' ∈ T.arguments)
    (hopt' : arg'.isOption = true) (haliased' : arg'.aliasName ≠ []) (stop : Bool)
    (currArg : List Char) (fuel : Nat)
    (text : List Char) :
    (T.parser stop).processAliases currArg (fuel + 1) arg (arg'.aliasName ++ text) m =
      (T.parser stop).processAliases currArg fuel arg' text (m.setFlag arg.type true) := by
  have hfind := T.findArgumentByAlias_eq harg' hopt' haliased' stop text
  have hsplit := (T.plainAlias arg' harg' hopt').2
  cases hcons : arg'.aliasName with
  | nil => exact (haliased' hcons).elim
  | cons c rest =>
    rw [hcons] at hfind hsplit
    have hc : c ≠ '=' := by simpa using hsplit
    have hvalue : arg.kind ≠ .value := by
      rw [hkind]
      nofun
    rw [cons_append] at hfind
    simp only [cons_append, Parser.processAliases, Parser.processFound, if_neg hvalue, if_neg hc, hfind]

theorem processAliases_flags {last : Argument τ} (hlast : last ∈ T.arguments) (hopt : last.isOption = true)
    (haliased : last.aliasName ≠ []) (stop : Bool) (currArg text : List Char) (flags : List (Argument τ))
    (hflags : ∀ arg ∈ flags, T.HasAlias .flag arg) (fuel : Nat) (hkind : arg.kind = .flag) (m : Machine τ) :
    (T.parser stop).processAliases currArg (fuel + flags.length + 1) arg
        (flags.flatMap Argument.aliasName ++ (last.aliasName ++ text)) m =
      (T.parser stop).processAliases currArg fuel last text
        ((arg :: flags).foldl (fun m arg => m.setFlag arg.type true) m) := by
  induction flags generalizing arg m with
  | nil => exact processAliases_flag hkind hlast hopt haliased stop currArg fuel text
  | cons flag flags ih =>
    have hflag := hflags flag mem_cons_self
    obtain ⟨hmem, hisOption⟩ := Table.Has.isOption (.inl hflag.toHas)
    have ih := ih (fun arg harg => hflags arg (mem_cons_of_mem _ harg)) hflag.kind (m.setFlag arg.type true)
    rw [flatMap_cons, append_assoc, length_cons, ← Nat.add_assoc,
      processAliases_flag hkind hmem hisOption hflag.aliased, ih]
    rfl

omit [DecidableEq τ] in
theorem length_le_flatMap {flags : List (Argument τ)} (hflags : ∀ arg ∈ flags, T.HasAlias .flag arg) :
    flags.length ≤ (flags.flatMap Argument.aliasName).length := by
  induction flags with
  | nil => exact Nat.le_refl 0
  | cons flag flags ih =>
    have ih := ih fun arg harg => hflags arg (mem_cons_of_mem _ harg)
    have hpos := length_pos_iff.mpr (hflags flag mem_cons_self).aliased
    rw [flatMap_cons, length_append, length_cons]
    omega

theorem processToken_alias (harg : arg ∈ T.arguments) (hopt : arg.isOption = true)
    (haliased : arg.aliasName ≠ []) (stop : Bool) {rest currArg : List Char}
    (hcurrArg : '-' :: (arg.aliasName ++ rest) = currArg) : (T.parser stop).processToken m currArg =
      (T.parser stop).processAliases currArg (arg.aliasName ++ rest).length arg rest m := by
  have hfind := T.findArgumentByAlias_eq harg hopt haliased stop rest
  have hdash := (T.plainAlias arg harg hopt).1
  subst hcurrArg
  cases hcons : arg.aliasName with
  | nil => exact (haliased hcons).elim
  | cons c more =>
    rw [hcons] at hdash hfind
    have hc : c ≠ '-' := by simpa using hdash
    rw [cons_append] at hfind
    simp only [cons_append]
    unfold Parser.processToken
    split
    · rename_i heq
      cases heq
    · rename_i heq
      exact (hc (List.cons.inj (List.cons.inj heq).2).1).elim
    · rename_i heq
      cases heq
      rw [Parser.processAlias, hfind]
    · rename_i hnot
      exact (hnot _ rfl).elim

theorem processAliases_last (stop : Bool) (currArg : List Char) (fuel : Nat) (arg : Argument τ)
    (more : List Char)
    (hmore : Ends more) (m : Machine τ) :
    (T.parser stop).processAliases currArg fuel arg more m =
      (T.parser stop).processFound currArg arg more m fun _ m => .next m := by
  cases fuel with
  | zero => rfl
  | succ fuel =>
    rw [Parser.processAliases]
    rcases hmore with rfl | ⟨value, rfl⟩
    · rfl
    · rfl

theorem processToken_chain {flags : List (Argument τ)} (hflags : ∀ arg ∈ flags, T.HasAlias .flag arg)
    {last : Argument τ} (hlast : last ∈ T.arguments) (hopt : last.isOption = true)
    (haliased : last.aliasName ≠ [])
    (stop : Bool) {more : List Char} (hmore : Ends more) (m : Machine τ) :
    (T.parser stop).processToken m (aliasChain flags last ++ more) =
      (T.parser stop).processFound (aliasChain flags last ++ more) last more
        (flags.foldl (fun m arg => m.setFlag arg.type true) m) fun _ m => .next m := by
  cases flags with
  | nil =>
    have htoken : '-' :: (last.aliasName ++ more) = aliasChain [] last ++ more := rfl
    rw [processToken_alias hlast hopt haliased stop htoken]
    exact processAliases_last stop _ _ last more hmore m
  | cons flag flags =>
    have hflag := hflags flag mem_cons_self
    have hrest := fun arg harg => hflags arg (mem_cons_of_mem flag harg)
    obtain ⟨hmem, hisOption⟩ := Table.Has.isOption (.inl hflag.toHas)
    have hlen := length_le_flatMap hrest
    have hpos := length_pos_iff.mpr hflag.aliased
    obtain ⟨fuel, hfuel⟩ : ∃ fuel, (flag.aliasName ++ (flags.flatMap Argument.aliasName ++
        (last.aliasName ++ more))).length = fuel + flags.length + 1 := by
      refine ⟨(flag.aliasName ++ (flags.flatMap Argument.aliasName ++
        (last.aliasName ++ more))).length - flags.length - 1, ?_⟩
      simp only [length_append]
      omega
    have htoken : '-' :: (flag.aliasName ++ (flags.flatMap Argument.aliasName ++ (last.aliasName ++ more))) =
        aliasChain (flag :: flags) last ++ more := by
      simp [aliasChain]
    rw [processToken_alias hmem hisOption hflag.aliased stop htoken, hfuel,
      processAliases_flags hlast hopt haliased stop _ more flags hrest fuel hflag.kind m,
      processAliases_last stop _ _ last more hmore]

def Machine.set (p : Parser τ) (m : Machine τ) : Setting τ → Machine τ
  | .value arg text => m.addValue p arg.type text
  | .flag arg on => m.setFlag arg.type on
  | .positional _ => m

theorem Open.put (h : Open p m) (type : τ) (values : List Value) :
    Open p (m.put type values) := ⟨h.pending, h.anchor⟩

theorem Open.setFlag (h : Open p m) (type : τ) (on : Bool) : Open p (m.setFlag type on) := by
  rw [m.setFlag_eq]
  exact h.put _ _

theorem Open.setFlags (h : Open p m) (flags : List (Argument τ)) :
    Open p (flags.foldl (fun m arg => m.setFlag arg.type true) m) := by
  induction flags generalizing m with
  | nil => exact h
  | cons flag flags ih => exact ih (h.setFlag _ _)

theorem foldl_set_flagsSet (flags : List (Argument τ)) (settings : List (Setting τ)) (m : Machine τ) :
    (flagsSet flags ++ settings).foldl (Machine.set p) m =
      settings.foldl (Machine.set p) (flags.foldl (fun m arg => m.setFlag arg.type true) m) := by
  rw [foldl_append, flagsSet, foldl_map]
  rfl

theorem applyFlagValue_of_isBool {on : Bool} {text : List Char} (hbool : IsBool on text) (type : τ)
    (currArg : List Char) : p.applyFlagValue m type text currArg = .next (m.setFlag type on) := by
  rw [IsBool] at hbool
  rw [Parser.applyFlagValue, hbool]

theorem processAdjoinedValue_of_not {text : List Char} (hquoted : ¬ Quoted text) (type : τ) :
    p.processAdjoinedValue m type text = m.addValue p type text := by
  rw [Parser.processAdjoinedValue, stripSurroundingQuotes_of_not hquoted]

section Endings

variable {arg : Argument τ} {token text : List Char} {m' : Machine τ} {more : List Char → Machine τ → Outcome τ}

theorem run_of_flag (hopen : Open p m) (hkind : arg.kind = .flag)
    (hread : p.processToken m token = p.processFound token arg [] m' more) (rest : List (List Char)) :
    p.run m (token :: rest) = p.run (m'.setFlag arg.type true) rest := by
  apply hopen.run_of_next
  rw [hread, Parser.processFound, hkind]
  rfl

theorem run_of_flagAdjoined (hopen : Open p m) (hkind : arg.kind = .flag) {on : Bool} (hbool : IsBool on text)
    (hread : p.processToken m token = p.processFound token arg ('=' :: text) m' more)
    (rest : List (List Char)) :
    p.run m (token :: rest) = p.run (m'.setFlag arg.type on) rest := by
  apply hopen.run_of_next
  rw [hread, Parser.processFound, hkind]
  exact applyFlagValue_of_isBool hbool _ _

theorem run_of_value (hopen : Open p m) (hkind : arg.kind = .value) (hpend : m'.pending = none)
    (hread : p.processToken m token = p.processFound token arg [] m' more) (rest : List (List Char)) :
    p.run m (token :: text :: rest) = p.run (m'.addValue p arg.type text) rest := by
  rw [← run_pending hpend rest]
  apply hopen.run_of_next
  rw [hread, Parser.processFound, hkind]
  rfl

theorem run_of_valueAdjoined (hopen : Open p m) (hkind : arg.kind = .value) (hquoted : ¬ Quoted text)
    (hread : p.processToken m token = p.processFound token arg ('=' :: text) m' more)
    (rest : List (List Char)) :
    p.run m (token :: rest) = p.run (m'.addValue p arg.type text) rest := by
  apply hopen.run_of_next
  rw [hread, Parser.processFound, hkind, ← processAdjoinedValue_of_not hquoted]
  rfl

end Endings

theorem run_of_rendered {settings : List (Setting τ)} {tokens : List (List Char)}
    (h : Rendered T settings tokens)
    (hoptions : positionals settings = []) (stop : Bool) (hopen : Open (T.parser stop) m)
    (rest : List (List Char)) :
    (T.parser stop).run m (tokens ++ rest) = (T.parser stop).run
      (settings.foldl (Machine.set (T.parser stop)) m) rest := by
  cases h with
  | positional hdash => cases hoptions
  | value harg text =>
    obtain ⟨hmem, hopt⟩ := Table.Has.isOption (.inr harg)
    have hread := processToken_name hmem hopt stop (.inl rfl) m
    rw [append_nil] at hread
    exact run_of_value hopen harg.kind hopen.pending hread rest
  | valueAdjoined harg hquoted =>
    obtain ⟨hmem, hopt⟩ := Table.Has.isOption (.inr harg)
    exact run_of_valueAdjoined hopen harg.kind hquoted (processToken_name hmem hopt stop (.inr ⟨_, rfl⟩) m) rest
  | flag harg =>
    obtain ⟨hmem, hopt⟩ := Table.Has.isOption (.inl harg)
    have hread := processToken_name hmem hopt stop (.inl rfl) m
    rw [append_nil] at hread
    exact run_of_flag hopen harg.kind hread rest
  | flagAdjoined harg hbool =>
    obtain ⟨hmem, hopt⟩ := Table.Has.isOption (.inl harg)
    exact run_of_flagAdjoined hopen harg.kind hbool (processToken_name hmem hopt stop (.inr ⟨_, rfl⟩) m) rest
  | chain hflags harg =>
    obtain ⟨hmem, hopt⟩ := Table.Has.isOption (.inl harg.toHas)
    have hread := processToken_chain hflags hmem hopt harg.aliased stop (.inl rfl) m
    rw [append_nil] at hread
    rw [foldl_set_flagsSet]
    exact run_of_flag hopen harg.kind hread rest
  | chainAdjoined hflags harg hbool =>
    obtain ⟨hmem, hopt⟩ := Table.Has.isOption (.inl harg.toHas)
    rw [foldl_set_flagsSet]
    exact run_of_flagAdjoined hopen harg.kind hbool
      (processToken_chain hflags hmem hopt harg.aliased stop (.inr ⟨_, rfl⟩) m) rest
  | chainValue hflags harg text =>
    obtain ⟨hmem, hopt⟩ := Table.Has.isOption (.inr harg.toHas)
    have hread := processToken_chain hflags hmem hopt harg.aliased stop (.inl rfl) m
    rw [append_nil] at hread
    rw [foldl_set_flagsSet]
    exact run_of_value hopen harg.kind (hopen.setFlags _).pending hread rest
  | chainValueAdjoined hflags harg hquoted =>
    obtain ⟨hmem, hopt⟩ := Table.Has.isOption (.inr harg.toHas)
    rw [foldl_set_flagsSet]
    exact run_of_valueAdjoined hopen harg.kind hquoted
      (processToken_chain hflags hmem hopt harg.aliased stop (.inr ⟨_, rfl⟩) m) rest

end Options

end WslPlus.Cli
