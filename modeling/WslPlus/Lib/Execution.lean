import Mathlib.Data.List.DropRight
import WslPlus.Lib.Shell

/-!
# Execution of shell commands

A token sequence is executed from left to right. Commands are external programs,
given as a function from the arguments and the standard input to an exit status
and an output. Assignments, pipelines, lists joined by `;`, parameters and command
substitutions are executed; a sequence with any other form has no execution.
-/

namespace WslPlus.Shell

open List Option

structure Result where
  status : Nat
  output : List Char
deriving DecidableEq

abbrev Programs := List (List Char) → List Char → Result

/-- A program that has been run, with its arguments. -/
structure Run where
  argv : List (List Char)
  result : Result
deriving DecidableEq

/-- The word being expanded. A character is paired with whether fields are split
at it; `quoted` if an expansion in it is quoted. -/
structure Word where
  chars : List (Char × Bool)
  expanded : Bool
  quoted : Bool

namespace Word

def empty : Word := { chars := [], expanded := false, quoted := false }

def text (w : Word) : List Char := w.chars.map Prod.fst

def add (w : Word) (text : List Char) : Word := { w with chars := w.chars ++ text.map (·, false) }

def isBlank (c : Char) : Bool := c == ' ' || c == '\t' || c == '\n'

def expand (w : Word) (quoted : Bool) (value : List Char) : Word :=
  { chars := w.chars ++ value.map fun c => (c, !quoted && isBlank c)
    expanded := true
    quoted := w.quoted || quoted }

def fields (w : Word) : List (List Char) :=
  let split := ((w.chars.splitOnP Prod.snd).map (·.map Prod.fst)).filter (!·.isEmpty)
  if split.isEmpty && (w.quoted || !w.expanded) then [[]] else split

end Word

/-- A shell or a subshell in the middle of a command. -/
structure Env where
  vars : List (List Char × List Char)
  argv : List (List Char)
  word : Word
  /-- The name before the `=` of the word, if the word is an assignment. -/
  target : Option (List Char)
  assigns : List (List Char × List Char)
  input : Option (List Char)
  output : List Char
  status : Nat
  substStatus : Nat

namespace Env

def start (vars : List (List Char × List Char)) : Env :=
  { vars := vars, argv := [], word := .empty, target := none, assigns := [], input := none,
    output := [], status := 0, substStatus := 0 }

def value (e : Env) (name : List Char) : List Char := (e.vars.lookup name).getD []

def endWord (e : Env) : Env :=
  match e.target with
  | some name =>
    { e with word := .empty, target := none, assigns := e.assigns ++ [(name, e.word.text)] }
  | none => { e with word := .empty, argv := e.argv ++ e.word.fields }

/-- The end of a command before `;` or at the end of the input. Assignments are
made when there is nothing to run. -/
def finish (programs : Programs) (e : Env) : Option (Env × List Run) :=
  match e.argv, e.assigns with
  | [], [] => none
  | [], assigns =>
    if e.input.isSome then none
    else some ({ start (assigns.reverse ++ e.vars) with output := e.output, status := e.substStatus }, [])
  | argv, [] =>
    let result := programs argv (e.input.getD [])
    some ({ start e.vars with output := e.output ++ result.output, status := result.status },
      [{ argv := argv, result := result }])
  | _, _ => none

/-- The end of a command before `|`. -/
def pipe (programs : Programs) (e : Env) : Option (Env × List Run) :=
  match e.argv, e.assigns with
  | [], _ => none
  | argv, [] =>
    let result := programs argv (e.input.getD [])
    some ({ start e.vars with output := e.output, input := some result.output },
      [{ argv := argv, result := result }])
  | _, _ => none

end Env

def stripNewlines (output : List Char) : List Char := output.rdropWhile (· == '\n')

structure Execution where
  env : Env
  /-- The shells that wait for a substitution, with whether it is quoted. -/
  outer : List (Env × Bool)
  trace : List Run

namespace Execution

def start : Execution := { env := .start [], outer := [], trace := [] }

def step (programs : Programs) (x : Execution) : Item → Option Execution
  | .char c => some { x with env := { x.env with word := x.env.word.add [c] } }
  | .active _ => none
  | .expansion _ => none
  | .assign =>
    if x.env.argv = [] then
      some { x with env := { x.env with word := .empty, target := some x.env.word.text } }
    else some { x with env := { x.env with word := x.env.word.add ['='] } }
  | .param name quoted =>
    some { x with env := { x.env with word := x.env.word.expand quoted (x.env.value name) } }
  | .substOpen quoted =>
    some { x with env := .start x.env.vars, outer := (x.env, quoted) :: x.outer }
  | .substClose =>
    match x.outer with
    | [] => none
    | (env, quoted) :: outer => do
      let (inner, runs) ← x.env.finish programs
      return {
        env := { env with
          word := env.word.expand quoted (stripNewlines inner.output), substStatus := inner.status }
        outer := outer
        trace := x.trace ++ runs }
  | .wordEnd => some { x with env := x.env.endWord }
  | .op c joined =>
    if joined then none
    else if c = ';' then do
      let (env, runs) ← x.env.finish programs
      return { x with env := env, trace := x.trace ++ runs }
    else if c = '|' then do
      let (env, runs) ← x.env.pipe programs
      return { x with env := env, trace := x.trace ++ runs }
    else none

def steps (programs : Programs) (x : Execution) (items : List Item) : Option Execution :=
  items.foldlM (step programs) x

def finish (programs : Programs) (x : Execution) : Option Execution := do
  if x.outer ≠ [] then none
  else
    let (env, runs) ← x.env.finish programs
    return { x with env := env, trace := x.trace ++ runs }

end Execution

def execute (programs : Programs) (text : List Char) : Option Execution := do
  let items ← lex text
  let x ← Execution.start.steps programs items
  x.finish programs

namespace Execution

variable {programs : Programs} {x y : Execution} {items rest : List Item}

@[simp] theorem steps_nil : x.steps programs [] = some x := rfl

theorem steps_cons (i : Item) :
    x.steps programs (i :: items) = (x.step programs i).bind (·.steps programs items) := rfl

theorem steps_append :
    x.steps programs (items ++ rest) = (x.steps programs items).bind (·.steps programs rest) := by
  simp only [steps, foldlM_append]
  rfl

theorem steps_literal (x : Execution) (text : List Char) :
    x.steps programs (literal text) =
      some { x with env := { x.env with word := x.env.word.add text } } := by
  induction text generalizing x with
  | nil => simp [literal, Word.add]
  | cons c text ih =>
    have hstep : x.step programs (.char c) =
        some { x with env := { x.env with word := x.env.word.add [c] } } := rfl
    rw [literal, map_cons, steps_cons, hstep, bind_some, ← literal, ih]
    simp [Word.add]

end Execution

theorem Word.fields_add (text : List Char) : (Word.empty.add text).fields = [text] := by
  have hsplit : (text.map (·, false)).splitOnP (Prod.snd : Char × Bool → Bool) =
      [text.map (·, false)] := by
    apply splitOnP_eq_singleton
    intro p hp
    obtain ⟨c, -, rfl⟩ := mem_map.mp hp
    simp
  have hmap : (text.map (·, false)).map (Prod.fst : Char × Bool → Char) = text := by
    simp [Function.comp_def]
  simp only [Word.fields, Word.add, Word.empty, nil_append, hsplit, map_cons, map_nil, hmap]
  cases text <;> rfl

theorem Word.text_add (text : List Char) : (Word.empty.add text).text = text := by
  simp [Word.add, Word.text, Word.empty, Function.comp_def]

theorem Word.text_expand (quoted : Bool) (value : List Char) :
    (Word.empty.expand quoted value).text = value := by
  simp [Word.expand, Word.text, Word.empty, Function.comp_def]

namespace Env

def addArgs (e : Env) (args : List (List Char)) : Env := { e with argv := e.argv ++ args }

def Between (e : Env) : Prop := e.word = .empty ∧ e.target = none

theorem finish_argv (programs : Programs) {e : Env} {program : List Char} {args : List (List Char)}
    (hargv : e.argv = program :: args) (hassigns : e.assigns = []) :
    e.finish programs =
      let result := programs (program :: args) (e.input.getD [])
      some ({ start e.vars with output := e.output ++ result.output, status := result.status },
        [{ argv := program :: args, result := result }]) := by
  simp only [finish, hargv, hassigns]

theorem pipe_argv (programs : Programs) {e : Env} {program : List Char} {args : List (List Char)}
    (hargv : e.argv = program :: args) (hassigns : e.assigns = []) :
    e.pipe programs =
      let result := programs (program :: args) (e.input.getD [])
      some ({ start e.vars with output := e.output, input := some result.output },
        [{ argv := program :: args, result := result }]) := by
  simp only [pipe, hargv, hassigns]

theorem endWord_add {e : Env} (he : e.Between) (text : List Char) :
    { e with word := e.word.add text }.endWord = e.addArgs [text] := by
  obtain ⟨hw, ht⟩ := he
  simp only [endWord, ht, hw, Word.fields_add, addArgs]

end Env

namespace Execution

variable {programs : Programs}

def addArgs (x : Execution) (args : List (List Char)) : Execution :=
  { x with env := x.env.addArgs args }

theorem steps_word {x : Execution} (hx : x.env.Between) (text : List Char) :
    x.steps programs (literal text ++ [Item.wordEnd]) = some (x.addArgs [text]) := by
  rw [steps_append, steps_literal, bind_some, addArgs, ← Env.endWord_add hx]
  rfl

theorem steps_words {x : Execution} (hx : x.env.Between) (texts : List (List Char)) :
    x.steps programs (simple (texts.map literal)) = some (x.addArgs texts) := by
  induction texts generalizing x with
  | nil => simp [simple, addArgs, Env.addArgs]
  | cons text texts ih =>
    have hcons : simple ((text :: texts).map literal) =
        literal text ++ [Item.wordEnd] ++ simple (texts.map literal) := rfl
    rw [hcons, steps_append, steps_word hx, bind_some, ih (x := x.addArgs [text]) hx]
    simp [addArgs, Env.addArgs]

/-- At the start of a command. -/
structure Fresh (e : Env) : Prop where
  between : e.Between
  argv : e.argv = []
  assigns : e.assigns = []

theorem fresh_start (vars : List (List Char × List Char)) : Fresh (.start vars) :=
  ⟨⟨rfl, rfl⟩, rfl, rfl⟩

variable {x : Execution} {program : List Char} {args : List (List Char)} {rest : List Item}

theorem argv_addArgs (hx : Fresh x.env) (args : List (List Char)) : (x.addArgs args).env.argv = args := by
  simp [addArgs, Env.addArgs, hx.argv]

theorem steps_simple_semi (hx : Fresh x.env) :
    x.steps programs (simple ((program :: args).map literal) ++ Item.op ';' false :: rest) =
      let result := programs (program :: args) (x.env.input.getD [])
      Execution.steps programs { x with
        env := { Env.start x.env.vars with
          output := x.env.output ++ result.output, status := result.status }
        trace := x.trace ++ [{ argv := program :: args, result := result }] } rest := by
  have hfinish := Env.finish_argv programs (argv_addArgs hx (program :: args)) hx.assigns
  rw [steps_append, steps_words hx.between, bind_some, steps_cons]
  simp only [step, hfinish, if_true]
  rfl

theorem steps_simple_pipe (hx : Fresh x.env) :
    x.steps programs (simple ((program :: args).map literal) ++ Item.op '|' false :: rest) =
      let result := programs (program :: args) (x.env.input.getD [])
      Execution.steps programs { x with
        env := { Env.start x.env.vars with output := x.env.output, input := some result.output }
        trace := x.trace ++ [{ argv := program :: args, result := result }] } rest := by
  have hpipe := Env.pipe_argv programs (argv_addArgs hx (program :: args)) hx.assigns
  rw [steps_append, steps_words hx.between, bind_some, steps_cons]
  simp only [step, hpipe, if_true]
  rfl

theorem steps_simple_close {env : Env} {quoted : Bool} {outer : List (Env × Bool)} (hx : Fresh x.env)
    (ho : x.outer = (env, quoted) :: outer) :
    x.steps programs (simple ((program :: args).map literal) ++ Item.substClose :: rest) =
      let result := programs (program :: args) (x.env.input.getD [])
      Execution.steps programs {
        env := { env with
          word := env.word.expand quoted (stripNewlines (x.env.output ++ result.output))
          substStatus := result.status }
        outer := outer
        trace := x.trace ++ [{ argv := program :: args, result := result }] } rest := by
  have hfinish := Env.finish_argv programs (argv_addArgs hx (program :: args)) hx.assigns
  have ho' : (x.addArgs (program :: args)).outer = (env, quoted) :: outer := ho
  rw [steps_append, steps_words hx.between, bind_some, steps_cons]
  simp only [step, ho', hfinish]
  rfl

theorem steps_param (hx : x.env.Between) (name : List Char) (quoted : Bool) :
    x.steps programs [.param name quoted, .wordEnd] =
      some (x.addArgs (Word.empty.expand quoted (x.env.value name)).fields) := by
  obtain ⟨hw, ht⟩ := hx
  simp only [steps_cons, step, bind_some, Env.endWord, ht, hw, steps_nil, addArgs, Env.addArgs]

@[simp] theorem addArgs_addArgs (args args' : List (List Char)) :
    (x.addArgs args).addArgs args' = x.addArgs (args ++ args') := by
  simp [addArgs, Env.addArgs]

theorem steps_assign_open (hx : Fresh x.env) (name : List Char) (quoted : Bool) :
    x.steps programs (literal name ++ Item.assign :: Item.substOpen quoted :: rest) =
      Execution.steps programs { x with
        env := .start x.env.vars
        outer := ({ x.env with target := some name }, quoted) :: x.outer } rest := by
  have htext : (x.env.word.add name).text = name := by
    rw [hx.between.1, Word.text_add]
  rw [steps_append, steps_literal, bind_some, steps_cons]
  simp only [step, hx.argv, if_true, htext, bind_some, steps_cons]
  rw [← hx.between.1, ← hx.argv]

theorem steps_assign_semi {name value : List Char} (htarget : x.env.target = some name)
    (htext : x.env.word.text = value) (hargv : x.env.argv = []) (hassigns : x.env.assigns = [])
    (hinput : x.env.input = none) :
    x.steps programs (.wordEnd :: .op ';' false :: rest) =
      Execution.steps programs { x with
        env := { Env.start ((name, value) :: x.env.vars) with
          output := x.env.output, status := x.env.substStatus } } rest := by
  simp [steps_cons, step, Env.endWord, Env.finish, htarget, htext, hargv, hassigns, hinput]

end Execution

end WslPlus.Shell
