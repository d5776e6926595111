import WslPlus.Text.Ascii

/-!
# Parsing of arguments

The parser is a state machine over the tokens of an invocation. A state may wait for the
value of an option; the first positional argument is the anchor behind which, for a
command that forwards arguments, no options are read.
-/

namespace WslPlus.Cli

open Function Text

inductive Kind where
  | flag
  | value
  | positional
  | forward
deriving DecidableEq

inductive Limit where
  | single
  | unlimited
deriving DecidableEq

section Parser

variable (τ : Type)

/-- An argument that a command defines, without what is shown to the user. -/
structure Argument where
  type : τ
  name : List Char
  aliasName : List Char
  kind : Kind
  limit : Limit
deriving DecidableEq

/-- The data of an argument, by its kind. -/
inductive Value where
  | flag (value : Bool)
  | text (value : List Char)
  | forwarded (values : List (List Char))
deriving DecidableEq

/-- `ArgMap`: the values of each type in the order in which they were added. -/
abbrev ArgMap : Type := τ → List Value

/-- The messages of an error, with the token that they name. -/
inductive Message where
  | missingArgument (arg : List Char)
  | flagInvalidBoolean (arg : List Char)
  | invalidArgumentSpecifier (arg : List Char)
  | extraPositional (arg : List Char)
  | commandHasNoForwardArguments (arg : List Char)
  | invalidAlias (arg : List Char)
  | valueMustBeLastInAliasChain (arg : List Char)
  | adjoinedNotFound (arg : List Char)
  | missingArgumentName (arg : List Char)
  | invalidName (arg : List Char)

/-- `ArgumentException`, or the exception of `substr` behind the end of a text. -/
inductive ParseError where
  | argument (message : Message) (arguments : List (Argument τ))
  | outOfRange

/-- The state between two tokens. The search for a positional argument goes on at `search`. -/
structure Machine where
  args : ArgMap τ
  pending : Option (τ × List Char)
  anchor : Option (Argument τ)
  search : List (Argument τ)
  overridable : List τ

/-- What a token leads to: the next state, also behind the last token, or a stop before the token. -/
inductive Outcome where
  | next (m : Machine τ)
  | finish (m : Machine τ)
  | stop
  | error (e : ParseError τ)

structure Parser where
  arguments : List (Argument τ)
  optionsOnly : Bool
  stopOnUnknown : Bool

end Parser

variable {τ : Type}

def Argument.isOption (arg : Argument τ) : Bool := arg.kind = .flag || arg.kind = .value

variable [DecidableEq τ]

def ArgMap.add (args : ArgMap τ) (type : τ) (value : Value) : ArgMap τ :=
  update args type (args type ++ [value])

def ArgMap.remove (args : ArgMap τ) (type : τ) : ArgMap τ := update args type []

def ArgMap.count (args : ArgMap τ) (type : τ) : Nat := (args type).length

def Parser.standardArgs (p : Parser τ) : List (Argument τ) :=
  p.arguments.filter Argument.isOption

def Parser.positionalArgs (p : Parser τ) : List (Argument τ) :=
  p.arguments.filter fun arg => arg.kind = .positional

def Parser.forwardArgs (p : Parser τ) : List (Argument τ) :=
  p.arguments.filter fun arg => arg.kind = .forward

def Parser.findArgument (p : Parser τ) (type : τ) : Option (Argument τ) :=
  p.arguments.find? fun arg => arg.type = type

def Parser.exception (p : Parser τ) (message : Message) (type : τ) : ParseError τ :=
  .argument message (p.findArgument type).toList

namespace Machine

def full (args : ArgMap τ) (arg : Argument τ) : Bool := arg.limit = .single && 1 ≤ args.count arg.type

/-- `NextPositional`. -/
def advance (m : Machine τ) : Machine τ := { m with search := m.search.dropWhile (full m.args) }

def hasNextPositional (m : Machine τ) : Bool := m.advance.search ≠ []

/-- `ConsumeOverrideIfPresent`. -/
def consumeOverride (m : Machine τ) (type : τ) : Machine τ :=
  if type ∈ m.overridable then { m with args := m.args.remove type, overridable := m.overridable.erase type }
  else m

def clearArgument (m : Machine τ) (type : τ) : Machine τ :=
  let m := m.consumeOverride type
  { m with args := m.args.remove type }

def add (m : Machine τ) (type : τ) (value : Value) : Machine τ := { m with args := m.args.add type value }

def setFlag (m : Machine τ) (type : τ) (value : Bool) : Machine τ :=
  (m.clearArgument type).add type (.flag value)

/-- `AddValue`; an argument that is not found is taken for a single one. -/
def addValue (p : Parser τ) (m : Machine τ) (type : τ) (value : List Char) : Machine τ :=
  let unlimited : Bool := match p.findArgument type with
    | some arg => arg.limit = .unlimited
    | none => false
  (if unlimited then m.consumeOverride type else m.clearArgument type).add type (.text value)

end Machine

def stripSurroundingQuotes (value : List Char) : List Char :=
  if 2 ≤ value.length ∧ value.head? = some '"' ∧ value.getLast? = some '"' then value.tail.dropLast else value

namespace Parser

def applyFlagValue (p : Parser τ) (m : Machine τ) (type : τ) (value currArg : List Char) : Outcome τ :=
  match parseBool (stripSurroundingQuotes value) true with
  | none => .error (p.exception (.flagInvalidBoolean currArg) type)
  | some value => .next (m.setFlag type value)

def processAdjoinedValue (p : Parser τ) (m : Machine τ) (type : τ) (value : List Char) : Machine τ :=
  m.addValue p type (stripSurroundingQuotes value)

def unknown (p : Parser τ) (message : Message) : Outcome τ :=
  if p.stopOnUnknown then .stop else .error (.argument message [])

/-- `ProcessPositionalArgument`. -/
def processPositional (m : Machine τ) (currArg : List Char) : Outcome τ :=
  let m := m.advance
  match m.search with
  | [] => .error (.argument (.extraPositional currArg) [])
  | arg :: _ => .next ({ m with anchor := some (m.anchor.getD arg) }.add arg.type (.text currArg))

/-- `ProcessAnchoredPositionals`, with the tokens behind. -/
def processAnchored (p : Parser τ) (m : Machine τ) (anchor : Argument τ) (currArg : List Char)
    (rest : List (List Char)) : Outcome τ :=
  if anchor.limit = .unlimited ∨ m.args.count anchor.type < 1 then .next (m.add anchor.type (.text currArg))
  else
    let m := m.advance
    match m.search, p.forwardArgs with
    | arg :: _, _ => .next (m.add arg.type (.text currArg))
    | [], [] => .error (.argument (.commandHasNoForwardArguments currArg) [])
    | [], forward :: _ => .finish (m.add forward.type (.forwarded (currArg :: rest)))

def findArgumentByAlias (p : Parser τ) (text : List Char) : Option (Argument τ × List Char) :=
  (p.standardArgs.find? fun arg => arg.aliasName ≠ [] && arg.aliasName.isPrefixOf text).map fun arg =>
    (arg, text.drop arg.aliasName.length)

/-- The alias of an argument that was found, with the text behind it: a value must be the last of a chain, and
behind a flag there may be more. -/
def processFound (p : Parser τ) (currArg : List Char) (arg : Argument τ) (text : List Char) (m : Machine τ)
    (more : List Char → Machine τ → Outcome τ) : Outcome τ :=
  if arg.kind = .value then
    match text with
    | [] => .next { m with pending := some (arg.type, currArg) }
    | c :: value =>
      if c = '=' then .next (p.processAdjoinedValue m arg.type value)
      else .error (.argument (.valueMustBeLastInAliasChain currArg) [arg])
  else
    match text with
    | [] => .next (m.setFlag arg.type true)
    | c :: value =>
      if c = '=' then p.applyFlagValue m arg.type value currArg else more text (m.setFlag arg.type true)

def processAliases (p : Parser τ) (currArg : List Char) : Nat → Argument τ → List Char → Machine τ → Outcome τ
  | 0, arg, text, m => p.processFound currArg arg text m fun _ m => .next m
  | fuel + 1, arg, text, m =>
    p.processFound currArg arg text m fun text m =>
      match p.findArgumentByAlias text with
      | none => .error (.argument (.adjoinedNotFound currArg) [])
      | some (arg', text') => p.processAliases currArg fuel arg' text' m

/-- `ProcessAliasArgument`, with the text behind the dash. -/
def processAlias (p : Parser τ) (m : Machine τ) (currArg text : List Char) : Outcome τ :=
  match p.findArgumentByAlias text with
  | none => p.unknown (.invalidAlias currArg)
  | some (arg, text') => p.processAliases currArg text.length arg text' m

/-- `ProcessNamedArgument`, with the text behind the two dashes; further dashes do not count. -/
def processNamed (p : Parser τ) (m : Machine τ) (currArg text : List Char) : Outcome τ :=
  if text = [] then p.unknown (.missingArgumentName currArg)
  else
    let text := text.dropWhile (· = '-')
    if text = [] then .error .outOfRange
    else
      let argName := text.takeWhile (· ≠ '=')
      match p.standardArgs.find? fun arg => arg.name = argName, text.dropWhile (· ≠ '=') with
      | none, _ => p.unknown (.invalidName currArg)
      | some arg, [] =>
        if arg.kind = .flag then .next (m.setFlag arg.type true) else .next { m with pending := some (arg.type, currArg) }
      | some arg, _ :: argValue =>
        if arg.kind = .flag then p.applyFlagValue m arg.type argValue currArg
        else .next (p.processAdjoinedValue m arg.type argValue)

def processToken (p : Parser τ) (m : Machine τ) (currArg : List Char) : Outcome τ :=
  match currArg with
  | ['-'] => if m.hasNextPositional then processPositional m currArg else p.unknown (.invalidArgumentSpecifier currArg)
  | '-' :: '-' :: text => p.processNamed m currArg text
  | '-' :: text => p.processAlias m currArg text
  | _ => if p.optionsOnly then .stop else processPositional m currArg

def stepInternal (p : Parser τ) (m : Machine τ) (currArg : List Char) (rest : List (List Char)) : Outcome τ :=
  match m.pending with
  | some (type, _) => .next ({ m with pending := none }.addValue p type currArg)
  | none =>
    match p.forwardArgs, m.anchor with
    | _ :: _, some anchor => p.processAnchored m anchor currArg rest
    | _, _ => p.processToken m currArg

def run (p : Parser τ) : Machine τ → List (List Char) → Except (ParseError τ) (ArgMap τ × List (List Char))
  | m, [] =>
    match m.pending with
    | some (type, arg) => .error (p.exception (.missingArgument arg) type)
    | none => .ok (m.args, [])
  | m, currArg :: rest =>
    match p.stepInternal m currArg rest with
    | .next m' => p.run m' rest
    | .finish m' => .ok (m'.args, [])
    | .stop => .ok (m.args, currArg :: rest)
    | .error e => .error e

def parseArguments (p : Parser τ) (overridable : List τ) (args : ArgMap τ) (tokens : List (List Char)) :
    Except (ParseError τ) (ArgMap τ × List (List Char)) :=
  if p.arguments = [] then .ok (args, tokens)
  else p.run { args, pending := none, anchor := none, search := p.positionalArgs, overridable } tokens

end Parser

namespace Machine

def put (m : Machine τ) (type : τ) (values : List Value) : Machine τ :=
  { m with args := update m.args type values, overridable := m.overridable.erase type }

theorem consumeOverride_eq (m : Machine τ) (type : τ) :
    m.consumeOverride type = m.put type (if type ∈ m.overridable then [] else m.args type) := by
  by_cases h : type ∈ m.overridable
  · rw [consumeOverride, if_pos h, if_pos h]
    rfl
  · rw [consumeOverride, if_neg h, if_neg h, put, update_eq_self, List.erase_of_not_mem h]

theorem clearArgument_eq (m : Machine τ) (type : τ) : m.clearArgument type = m.put type [] := by
  rw [clearArgument, consumeOverride_eq]
  simp only [put, ArgMap.remove, update_idem]

theorem add_put (m : Machine τ) (type : τ) (values : List Value) (value : Value) :
    (m.put type values).add type value = m.put type (values ++ [value]) := by
  simp only [put, add, ArgMap.add, update_idem, update_self]

theorem setFlag_eq (m : Machine τ) (type : τ) (value : Bool) :
    m.setFlag type value = m.put type [.flag value] := by
  rw [setFlag, clearArgument_eq, add_put]
  rfl

theorem addValue_of_single {p : Parser τ} {type : τ} {arg : Argument τ} (harg : p.findArgument type = some arg)
    (hlimit : arg.limit = .single) (m : Machine τ) (value : List Char) :
    m.addValue p type value = m.put type [.text value] := by
  simp only [addValue, harg, hlimit, reduceCtorEq, decide_false, Bool.false_eq_true, if_false]
  rw [clearArgument_eq, add_put]
  rfl

theorem addValue_of_unlimited {p : Parser τ} {type : τ} {arg : Argument τ}
    (harg : p.findArgument type = some arg)
    (hlimit : arg.limit = .unlimited) (m : Machine τ) (value : List Char) :
    m.addValue p type value =
      m.put type ((if type ∈ m.overridable then [] else m.args type) ++ [Value.text value]) := by
  simp only [addValue, harg, hlimit, decide_true, if_true]
  rw [consumeOverride_eq, add_put]

end Machine

end WslPlus.Cli
