import Mathlib.Data.List.Basic

/-!
# Token recognition of the POSIX shell

The lexer reads one character at a time and emits items: the characters of a
word after quote removal, the places where something is expanded, the ends of
words and the operators. Command substitutions are read through, with a stack
for their parentheses. The remaining forms of expansion (braces, arithmetic,
back-quotes) and here-documents are recorded and not read further.
-/

namespace WslPlus.Shell

open List

inductive Item where
  | char (c : Char)
  /-- An unquoted pattern character or tilde, or a `$` that starts no expansion. -/
  | active (c : Char)
  /-- The `=` of an assignment word. -/
  | assign
  | param (name : List Char) (quoted : Bool)
  | expansion (c : Char)
  | substOpen (quoted : Bool)
  | substClose
  | wordEnd
  /-- One character of an operator; `joined` if it continues the one before. -/
  | op (c : Char) (joined : Bool)
deriving DecidableEq

inductive Mode where
  | word
  | single
  | double
  | escape
  | doubleEscape
  | dollar (quoted : Bool)
  | dollarParen (quoted : Bool)
  | name (quoted : Bool) (sofar : List Char)
  | comment
  | stopped
deriving DecidableEq

/-- What a closing parenthesis closes. -/
inductive Frame where
  | paren
  | subst (quoted : Bool)
deriving DecidableEq

structure Lexer where
  mode : Mode
  inWord : Bool
  /-- The word so far is an unquoted name, so that `=` makes it an assignment. -/
  assignable : Bool
  frames : List Frame
  lastOp : Option Char
deriving DecidableEq

namespace Lexer

def start : Lexer :=
  { mode := .word, inWord := false, assignable := false, frames := [], lastOp := none }

def isNameStart (c : Char) : Bool := c.isAlpha || c == '_'

def isNameChar (c : Char) : Bool := c.isAlphanum || c == '_'

def isSpecialParam (c : Char) : Bool := c.isDigit || "@*#?-$!".toList.contains c

def joins (d c : Char) : Bool :=
  [(';', ';'), ('&', '&'), ('|', '|'), ('<', '<'), ('>', '>'), ('<', '&'), ('>', '&'), ('<', '>'),
    ('>', '|')].contains (d, c)

def endWord (l : Lexer) : List Item := if l.inWord then [.wordEnd] else []

def took (l : Lexer) (assignable : Bool) : Lexer :=
  { l with mode := .word, inWord := true, assignable := assignable, lastOp := none }

def readOp (l : Lexer) (c : Char) : Lexer × List Item :=
  let joined := l.lastOp.any fun d => joins d c
  ({ l with
      mode := if joined && c == '<' then .stopped else .word, inWord := false,
      assignable := false, lastOp := some c },
    l.endWord ++ [Item.op c joined])

def readClose (l : Lexer) : Lexer × List Item :=
  match l.frames with
  | [] => l.readOp ')'
  | .paren :: frames => { l with frames := frames }.readOp ')'
  | .subst quoted :: frames =>
    ({ l with
        mode := if quoted then .double else .word, inWord := true, assignable := false,
        frames := frames, lastOp := none },
      l.endWord ++ [Item.substClose])

def readWord (l : Lexer) (c : Char) : Lexer × List Item :=
  if c = '\'' then ({ l.took false with mode := .single }, [])
  else if c = '"' then ({ l.took false with mode := .double }, [])
  else if c = '\\' then ({ l with mode := .escape, lastOp := none }, [])
  else if c = '$' then ({ l.took false with mode := .dollar false }, [])
  else if c = '`' then ({ l.took false with mode := .stopped }, [.expansion c])
  else if c = ' ' ∨ c = '\t' then
    ({ l with mode := .word, inWord := false, assignable := false, lastOp := none }, l.endWord)
  else if c = '(' then ({ l with frames := .paren :: l.frames }.readOp c)
  else if c = ')' then l.readClose
  else if c = ';' ∨ c = '&' ∨ c = '|' ∨ c = '<' ∨ c = '>' ∨ c = '\n' then l.readOp c
  else if c = '#' ∧ !l.inWord then ({ l with mode := .comment, lastOp := none }, [])
  else if c = '*' ∨ c = '?' ∨ c = '[' ∨ c = '~' then (l.took false, [.active c])
  else if c = '=' ∧ l.assignable then (l.took false, [.assign])
  else (l.took (if l.inWord then l.assignable && isNameChar c else isNameStart c), [.char c])

def readDouble (l : Lexer) (c : Char) : Lexer × List Item :=
  if c = '"' then (l.took false, [])
  else if c = '\\' then ({ l with mode := .doubleEscape }, [])
  else if c = '$' then ({ l with mode := .dollar true }, [])
  else if c = '`' then ({ l with mode := .stopped }, [.expansion c])
  else ({ l with mode := .double }, [.char c])

def readOutside (l : Lexer) (quoted : Bool) (c : Char) : Lexer × List Item :=
  if quoted then l.readDouble c else l.readWord c

def readDollar (l : Lexer) (quoted : Bool) (c : Char) : Lexer × List Item :=
  if isNameStart c then ({ l with mode := .name quoted [c] }, [])
  else if c = '(' then ({ l with mode := .dollarParen quoted }, [])
  else if c = '{' then ({ l with mode := .stopped }, [.expansion c])
  else if isSpecialParam c then
    ({ l with mode := if quoted then .double else .word }, [.param [c] quoted])
  else
    let (l, items) := l.readOutside quoted c
    (l, .active '$' :: items)

def read (l : Lexer) (c : Char) : Lexer × List Item :=
  match l.mode with
  | .word => l.readWord c
  | .single => if c = '\'' then (l.took false, []) else (l, [.char c])
  | .double => l.readDouble c
  | .escape => if c = '\n' then ({ l with mode := .word }, []) else (l.took false, [.char c])
  | .doubleEscape =>
    ({ l with mode := .double },
      if c = '\n' then []
      else if c = '$' ∨ c = '`' ∨ c = '"' ∨ c = '\\' then [.char c]
      else [.char '\\', .char c])
  | .dollar quoted => l.readDollar quoted c
  | .dollarParen quoted =>
    if c = '(' then ({ l with mode := .stopped }, [.expansion c])
    else
      let (l, items) := { start with frames := .subst quoted :: l.frames }.readWord c
      (l, .substOpen quoted :: items)
  | .name quoted sofar =>
    if isNameChar c then ({ l with mode := .name quoted (sofar ++ [c]) }, [])
    else
      let (l, items) := l.readOutside quoted c
      (l, .param sofar quoted :: items)
  | .comment => if c = '\n' then l.readOp c else (l, [])
  | .stopped => (l, [])

/-- The items that the end of the input adds; nothing if it comes inside a
quotation, an expansion or a substitution. -/
def finish (l : Lexer) : Option (List Item) :=
  if l.frames ≠ [] then none
  else
    match l.mode with
    | .word => some l.endWord
    | .dollar false => some [.active '$', .wordEnd]
    | .name false sofar => some [.param sofar false, .wordEnd]
    | .comment => some []
    | _ => none

def after (l : Lexer) (text : List Char) : Lexer := text.foldl (fun l c => (l.read c).1) l

def items (l : Lexer) : List Char → List Item
  | [] => []
  | c :: text => (l.read c).2 ++ (l.read c).1.items text

@[simp] theorem after_nil (l : Lexer) : l.after [] = l := rfl

@[simp] theorem after_cons (l : Lexer) (c : Char) (text : List Char) :
    l.after (c :: text) = (l.read c).1.after text := rfl

@[simp] theorem items_nil (l : Lexer) : l.items [] = [] := rfl

@[simp] theorem items_cons (l : Lexer) (c : Char) (text : List Char) :
    l.items (c :: text) = (l.read c).2 ++ (l.read c).1.items text := rfl

theorem after_append (l : Lexer) (xs ys : List Char) : l.after (xs ++ ys) = (l.after xs).after ys := by
  simp [after]

theorem items_append (l : Lexer) (xs ys : List Char) :
    l.items (xs ++ ys) = l.items xs ++ (l.after xs).items ys := by
  induction xs generalizing l with
  | nil => rfl
  | cons c xs ih => simp [ih]

theorem items_single {l : Lexer} (hl : l.mode = .single) {s : List Char} (hs : '\'' ∉ s) :
    l.after s = l ∧ l.items s = s.map Item.char := by
  induction s with
  | nil => exact ⟨rfl, rfl⟩
  | cons c s ih =>
    obtain ⟨hc, hs⟩ := not_or.mp (mt mem_cons.mpr hs)
    have hread : l.read c = (l, [.char c]) := by
      simp only [read, hl, if_neg (Ne.symm hc)]
    obtain ⟨ha, hi⟩ := ih hs
    exact ⟨by rw [after_cons, hread, ha], by rw [items_cons, hread, hi]; rfl⟩

/-- Inside a word of the outermost command, with no expansion begun. -/
structure Literal (l : Lexer) : Prop where
  inWord : l.inWord = true
  frames : l.frames = []
  mode : l.mode = .word ∨ l.mode = .single ∨ l.mode = .double ∨ l.mode = .escape ∨
    l.mode = .doubleEscape

def pending (l : Lexer) : Nat :=
  match l.mode with
  | .single | .double | .escape => 1
  | .doubleEscape => 2
  | _ => 0

def Expanding (l : Lexer) : Prop :=
  (∃ q, l.mode = .dollar q) ∨ (∃ q, l.mode = .dollarParen q) ∨ ∃ q s, l.mode = .name q s

end Lexer

def Item.IsChar (i : Item) : Prop := ∃ c, i = .char c

namespace Lexer

def Keeps (l : Lexer) (c : Char) (r : Lexer × List Item) : Prop :=
  ∃ cs : List Char, r.2 = cs.map Item.char ∧ Literal r.1 ∧ cs.length + r.1.pending ≤ 1 + l.pending ∧
    cs.count ';' = [c].count ';'

def Leaves (r : Lexer × List Item) : Prop :=
  (∃ i is, ¬ i.IsChar ∧ r.2 = i :: is) ∨ (r.2 = [] ∧ Expanding r.1)

variable {i : Item}

theorem leaves_item {r : Lexer × List Item} {is : List Item}
    (hi : ∀ d, i ≠ .char d) (hr : r.2 = i :: is) : Leaves r :=
  .inl ⟨i, is, fun ⟨d, hd⟩ => hi d hd, hr⟩

def Reads (l : Lexer) (c : Char) (r : Lexer × List Item) : Prop := Keeps l c r ∨ Leaves r

variable {l : Lexer}

theorem reads_ite {c : Char} {r r' : Lexer × List Item} {p : Prop} [Decidable p]
    (hr : p → Reads l c r) (hr' : ¬ p → Reads l c r') : Reads l c (if p then r else r') := by
  by_cases h : p
  · rw [if_pos h]
    exact hr h
  · rw [if_neg h]
    exact hr' h

theorem reads_item {c : Char} {r : Lexer × List Item} {is : List Item}
    (hi : ∀ d, i ≠ .char d) (hr : r.2 = i :: is) : Reads l c r :=
  .inr (leaves_item hi hr)

theorem reads_readOp {l l' : Lexer} (hl : l'.inWord = true) (c d : Char) : Reads l c (l'.readOp d) := by
  apply reads_item (i := .wordEnd)
  · intro e he
    cases he
  · simp only [readOp, endWord, hl, if_true]
    rfl

theorem Literal.readWord (hl : Literal l) (c : Char) : Reads l c (l.readWord c) := by
  have hin := hl.inWord
  have hfr := hl.frames
  unfold Lexer.readWord
  refine reads_ite (fun hc => .inl ⟨[], rfl, ⟨rfl, hfr, by simp⟩, ?_, by subst hc; rfl⟩) fun _ => ?_
  · exact Nat.le_add_right 1 _
  refine reads_ite (fun hc => .inl ⟨[], rfl, ⟨rfl, hfr, by simp⟩, ?_, by subst hc; rfl⟩) fun _ => ?_
  · exact Nat.le_add_right 1 _
  refine reads_ite (fun hc => .inl ⟨[], rfl, ⟨hin, hfr, by simp⟩, ?_, by subst hc; rfl⟩) fun _ => ?_
  · exact Nat.le_add_right 1 _
  refine reads_ite (fun _ => .inr (.inr ⟨rfl, .inl ⟨_, rfl⟩⟩)) fun _ => ?_
  refine reads_ite (fun _ => reads_item (by simp) rfl) fun _ => ?_
  refine reads_ite (fun _ => ?_) fun _ => ?_
  · have hend : l.endWord = [.wordEnd] := by simp only [endWord, hin, if_true]
    exact reads_item (by simp) hend
  refine reads_ite (fun _ => reads_readOp (by exact hin) _ _) fun _ => ?_
  refine reads_ite (fun _ => ?_) fun _ => ?_
  · simp only [readClose, hfr]
    exact reads_readOp hin _ _
  refine reads_ite (fun _ => reads_readOp hin _ _) fun _ => ?_
  refine reads_ite (fun hc => ?_) fun _ => ?_
  · simp [hin] at hc
  refine reads_ite (fun _ => reads_item (by simp) rfl) fun _ => ?_
  refine reads_ite (fun _ => reads_item (by simp) rfl) fun _ => ?_
  exact .inl ⟨[c], rfl, ⟨rfl, hfr, .inl rfl⟩, Nat.le_add_right 1 _, rfl⟩

theorem Literal.readDouble (hl : Literal l) (hm : l.mode = .double) (c : Char) :
    Reads l c (l.readDouble c) := by
  have hp : l.pending = 1 := by simp only [pending, hm]
  have hin := hl.inWord
  have hfr := hl.frames
  unfold Lexer.readDouble
  refine reads_ite (fun hc => .inl ⟨[], rfl, ⟨rfl, hfr, .inl rfl⟩, ?_, by subst hc; rfl⟩) fun _ => ?_
  · exact Nat.zero_le _
  refine reads_ite (fun hc => .inl ⟨[], rfl, ⟨hin, hfr, by simp⟩, ?_, by subst hc; rfl⟩) fun _ => ?_
  · rw [hp]
    exact Nat.le_refl 2
  refine reads_ite (fun _ => .inr (.inr ⟨rfl, .inl ⟨_, rfl⟩⟩)) fun _ => ?_
  refine reads_ite (fun _ => reads_item (by simp) rfl) fun _ => ?_
  refine .inl ⟨[c], rfl, ⟨hin, hfr, by simp⟩, ?_, rfl⟩
  rw [hp]
  exact Nat.le_refl 2

theorem Literal.read (hl : Literal l) (c : Char) : Reads l c (l.read c) := by
  have hin := hl.inWord
  have hfr := hl.frames
  rcases hl.mode with hm | hm | hm | hm | hm
  · simp only [Lexer.read, hm]
    exact hl.readWord c
  · simp only [Lexer.read, hm]
    refine reads_ite (fun hc => ?_) fun _ => ?_
    · exact .inl ⟨[], rfl, ⟨rfl, hfr, .inl rfl⟩, Nat.zero_le _, by subst hc; rfl⟩
    · exact .inl ⟨[c], rfl, hl, Nat.le_refl _, rfl⟩
  · simp only [Lexer.read, hm]
    exact hl.readDouble hm c
  · simp only [Lexer.read, hm]
    refine reads_ite (fun hc => ?_) fun _ => ?_
    · exact .inl ⟨[], rfl, ⟨hin, hfr, .inl rfl⟩, Nat.zero_le _, by subst hc; rfl⟩
    · exact .inl ⟨[c], rfl, ⟨rfl, hfr, .inl rfl⟩, Nat.le_add_right 1 _, rfl⟩
  · simp only [Lexer.read, hm]
    have hp : l.pending = 2 := by simp only [pending, hm]
    have hl' : Literal { l with mode := .double } := ⟨hin, hfr, by simp⟩
    refine .inl ?_
    by_cases hn : c = '\n'
    · exact ⟨[], by rw [if_pos hn]; rfl, hl', by rw [hp]; exact Nat.le_add_left 1 2, by subst hn; rfl⟩
    by_cases hc : c = '$' ∨ c = '`' ∨ c = '"' ∨ c = '\\'
    · exact ⟨[c], by rw [if_neg hn, if_pos hc]; rfl, hl', by rw [hp]; exact Nat.le_succ 2, rfl⟩
    · refine ⟨['\\', c], by rw [if_neg hn, if_neg hc]; rfl, hl', by rw [hp]; exact Nat.le_refl 3, ?_⟩
      exact count_cons_of_ne (by decide)

theorem Expanding.read (hl : Expanding l) (c : Char) : Leaves (l.read c) ∧ (c = '\'' → (l.read c).2 ≠ []) := by
  rcases hl with ⟨q, hm⟩ | ⟨q, hm⟩ | ⟨q, s, hm⟩
  · simp only [Lexer.read, hm, readDollar]
    by_cases h1 : isNameStart c = true
    · rw [if_pos h1]
      exact ⟨.inr ⟨rfl, .inr (.inr ⟨_, _, rfl⟩)⟩, by rintro rfl; cases h1⟩
    rw [if_neg h1]
    by_cases h2 : c = '('
    · rw [if_pos h2]
      exact ⟨.inr ⟨rfl, .inr (.inl ⟨_, rfl⟩)⟩, by rintro rfl; cases h2⟩
    rw [if_neg h2]
    by_cases h3 : c = '\x7b'
    · rw [if_pos h3]
      exact ⟨leaves_item (by simp) rfl, fun _ => cons_ne_nil _ _⟩
    rw [if_neg h3]
    by_cases h4 : isSpecialParam c = true
    · rw [if_pos h4]
      exact ⟨leaves_item (by simp) rfl, fun _ => cons_ne_nil _ _⟩
    rw [if_neg h4]
    exact ⟨leaves_item (by simp) rfl, fun _ => cons_ne_nil _ _⟩
  · simp only [Lexer.read, hm]
    by_cases h1 : c = '('
    · rw [if_pos h1]
      exact ⟨leaves_item (by simp) rfl, fun _ => cons_ne_nil _ _⟩
    rw [if_neg h1]
    exact ⟨leaves_item (by simp) rfl, fun _ => cons_ne_nil _ _⟩
  · simp only [Lexer.read, hm]
    by_cases h1 : isNameChar c = true
    · rw [if_pos h1]
      exact ⟨.inr ⟨rfl, .inr (.inr ⟨_, _, rfl⟩)⟩, by rintro rfl; cases h1⟩
    rw [if_neg h1]
    exact ⟨leaves_item (by simp) rfl, fun _ => cons_ne_nil _ _⟩

/-- An expansion that has begun emits its item before any character, at the
latest when a quote is read. -/
theorem Expanding.items (hl : Expanding l) (t V : List Char) :
    ∃ i is, ¬ i.IsChar ∧ l.items (t ++ '\'' :: V) = i :: is := by
  induction t generalizing l with
  | nil =>
    obtain ⟨⟨i, is, hi, his⟩ | ⟨hnil, _⟩, hq⟩ := hl.read '\''
    · exact ⟨i, _, hi, by rw [nil_append, items_cons, his]; rfl⟩
    · exact absurd hnil (hq rfl)
  | cons c t ih =>
    obtain ⟨⟨i, is, hi, his⟩ | ⟨hnil, hx⟩, _⟩ := hl.read c
    · exact ⟨i, _, hi, by rw [cons_append, items_cons, his]; rfl⟩
    · obtain ⟨i, is, hi, his⟩ := ih hx
      exact ⟨i, is, hi, by rw [cons_append, items_cons, hnil, his]; rfl⟩

/-- Reading the text up to a quote inside a literal word: the emitted
characters are at most as many as the characters read, or something other than
a character is emitted among them. -/
theorem Literal.items (hl : Literal l) (t V : List Char) :
    (∃ cs : List Char, l.items t = cs.map Item.char ∧ Literal (l.after t) ∧
      cs.length + (l.after t).pending ≤ t.length + l.pending ∧ cs.count ';' = t.count ';') ∨
    ∃ (cs : List Char) (i : Item) (is : List Item), ¬ i.IsChar ∧
      l.items (t ++ '\'' :: V) = cs.map Item.char ++ i :: is ∧ cs.length ≤ t.length + l.pending := by
  induction t generalizing l with
  | nil => exact .inl ⟨[], rfl, hl, by simp, rfl⟩
  | cons c t ih =>
    rcases hl.read c with ⟨es, hes, hl', hlen, hcount⟩ | ⟨i, is, hi, his⟩ | ⟨he, hx⟩
    · rcases ih hl' with ⟨cs, hcs, hl'', hlen', hcount'⟩ | ⟨cs, i, is, hi, his, hlen'⟩
      · refine .inl ⟨es ++ cs, ?_, hl'', ?_, ?_⟩
        · rw [items_cons, hes, hcs, map_append]
        · rw [after_cons, length_append, length_cons]
          omega
        · rw [count_append, hcount, hcount', ← count_append]
          rfl
      · refine .inr ⟨es ++ cs, i, is, hi, ?_, ?_⟩
        · rw [cons_append, items_cons, hes, his, map_append, append_assoc]
        · rw [length_append, length_cons]
          omega
    · refine .inr ⟨[], i, is ++ (l.read c).1.items (t ++ '\'' :: V), hi, ?_, Nat.zero_le _⟩
      rw [cons_append, items_cons, his]
      rfl
    · obtain ⟨i, is, hi, his⟩ := hx.items t V
      refine .inr ⟨[], i, is, hi, ?_, Nat.zero_le _⟩
      rw [cons_append, items_cons, he, his]
      rfl

theorem Literal.read_quote (hl : Literal l) :
    ∃ es : List Char, (l.read '\'').2 = es.map Item.char ∧ Literal (l.read '\'').1 ∧
      ((l.read '\'').1.mode = .word ∨ (l.read '\'').1.mode = .single ∨ (l.read '\'').1.mode = .double) ∧
      es.length ≤ l.pending ∧ es.count ';' = 0 := by
  have hin := hl.inWord
  have hfr := hl.frames
  rcases hl.mode with hm | hm | hm | hm | hm <;> simp only [Lexer.read, hm, pending]
  · exact ⟨[], rfl, ⟨rfl, hfr, by simp [Lexer.readWord]⟩, .inr (.inl rfl), Nat.le_refl _, rfl⟩
  · exact ⟨[], rfl, ⟨rfl, hfr, .inl rfl⟩, .inl rfl, Nat.zero_le _, rfl⟩
  · exact ⟨['\''], rfl, ⟨hin, hfr, by simp [Lexer.readDouble]⟩, .inr (.inr rfl), Nat.le_refl _, rfl⟩
  · exact ⟨['\''], rfl, ⟨rfl, hfr, .inl rfl⟩, .inl rfl, Nat.le_refl _, rfl⟩
  · exact ⟨['\\', '\''], rfl, ⟨hin, hfr, by simp⟩, by simp, Nat.le_refl _, rfl⟩

theorem not_map_char {cs X : List Char} {is Z : List Item} (hi : ¬ i.IsChar)
    (hlen : cs.length < X.length) : cs.map Item.char ++ i :: is ≠ X.map Item.char ++ Z := by
  intro h
  have h := congrArg (fun items => items[cs.length]?) h
  simp only [getElem?_append, length_map, Nat.lt_irrefl, if_false, Nat.sub_self,
    getElem?_cons_zero, hlen, if_true, getElem?_map, getElem?_eq_getElem hlen,
    Option.map_some, Option.some.injEq] at h
  exact hi ⟨_, h⟩

theorem prefix_of_map_char {cs X : List Char} {Y Z : List Item}
    (h : cs.map Item.char ++ Y = X.map Item.char ++ Z) (hlen : cs.length ≤ X.length) : cs <+: X := by
  have hinj : Function.Injective Item.char := fun a b hab => Item.char.inj hab
  rw [← prefix_map_iff_of_injective hinj]
  refine prefix_of_prefix_length_le ⟨Y, h⟩ ⟨Z, rfl⟩ ?_
  simpa using hlen

/-- What follows the closing quote: the end of the input or a separator. -/
inductive Ends : List Char → Prop
  | nil : Ends []
  | semi (V : List Char) : Ends (';' :: V)

theorem Literal.ends_word (hl : Literal l) (hm : l.mode = .word) {V : List Char}
    (hV : Ends V) {F : List Item} (hF : (l.after V).finish = some F) :
    ∃ is, l.items V ++ F = .wordEnd :: is := by
  have hend : l.endWord = [.wordEnd] := by simp only [endWord, hl.inWord, if_true]
  cases hV with
  | nil =>
    simp only [after_nil, finish, hl.frames, hm, hend] at hF
    exact ⟨[], by simpa using hF.symm⟩
  | semi V =>
    have hread : l.read ';' = l.readOp ';' := by simp only [Lexer.read, hm]; rfl
    exact ⟨_, by rw [items_cons, hread, readOp, hend]; rfl⟩

theorem quoted_separator (hm : l.mode = .single ∨ l.mode = .double) {V : List Char}
    (hV : Ends V) {F : List Item} (hF : (l.after V).finish = some F) :
    ∃ W, V = ';' :: W ∧ ∃ is, l.items V ++ F = .char ';' :: is := by
  cases hV with
  | nil => rcases hm with hm | hm <;> simp [finish, hm] at hF
  | semi W =>
    refine ⟨W, rfl, ?_⟩
    rcases hm with hm | hm
    · exact ⟨_, by simp only [items_cons, Lexer.read, hm]; rfl⟩
    · exact ⟨_, by simp only [items_cons, Lexer.read, hm]; rfl⟩

theorem items_ne_of_quote (hm : l.mode = .single) (hfr : l.frames = []) {s V : List Char}
    (hs : '\'' ∈ s) (hV : Ends V) {F R : List Item} (hF : (l.after (s ++ '\'' :: V)).finish = some F) :
    l.items (s ++ '\'' :: V) ++ F ≠ s.map Item.char ++ Item.wordEnd :: R := by
  obtain ⟨a, t, rfl, ha⟩ := eq_append_cons_of_mem hs
  obtain ⟨ha, hia⟩ := items_single hm ha
  have hread : l.read '\'' = (l.took false, []) := by simp only [Lexer.read, hm, if_true]
  have hw : Literal (l.took false) := ⟨rfl, hfr, .inl rfl⟩
  have hlt : t.length < ('\'' :: t).length := Nat.lt_succ_self _
  intro h
  rw [append_assoc, cons_append, items_append, hia, ha, items_cons, hread,
    nil_append, map_append, append_assoc, append_assoc,
    append_cancel_left_eq] at h
  rw [append_assoc, cons_append, after_append, ha, after_cons, hread] at hF
  rcases hw.items t V with ⟨cs, hcs, hl, hlen, hcount⟩ | ⟨cs, i, is, hi, his, hlen⟩
  · obtain ⟨es, hes, hq, hmode, hlen', hcount'⟩ := hl.read_quote
    have hwp : (l.took false).pending = 0 := rfl
    have hds : (cs ++ es).length < ('\'' :: t).length := by
      rw [length_append, length_cons]
      omega
    rw [items_append, hcs, items_cons, hes, append_assoc, append_assoc,
      ← append_assoc, ← map_append] at h
    rw [after_append, after_cons] at hF
    have hwordEnd : ¬ Item.wordEnd.IsChar := by
      rintro ⟨d, hd⟩
      cases hd
    rcases hmode with hm' | hm'
    · -- The word ends with what follows, too early.
      obtain ⟨is, his⟩ := hq.ends_word hm' hV hF
      rw [his] at h
      exact not_map_char hwordEnd hds h
    · -- The separator is inside a quotation and becomes a character too many.
      obtain ⟨W, rfl, is, his⟩ := quoted_separator hm' hV hF
      rw [his, ← singleton_append, ← append_assoc, ← map_singleton, ← map_append] at h
      have hpre := prefix_of_map_char h (by rw [length_append]; exact hds)
      have hle := hpre.sublist.count_le ';'
      rw [count_append, count_append, hcount, hcount', count_singleton_self,
        count_cons_of_ne (by decide)] at hle
      omega
  · rw [his, append_assoc, cons_append] at h
    exact not_map_char hi (Nat.lt_of_le_of_lt hlen hlt) h

end Lexer

def lex (text : List Char) : Option (List Item) :=
  (Lexer.start.after text).finish.map (Lexer.start.items text ++ ·)

/-- Items being grouped into simple commands: the word and the command that are
read, the ones around them that wait for a substitution to close, and the
commands that are complete. -/
structure Grouping where
  word : List Item
  argv : List (List Item)
  outer : List (List Item × List (List Item))
  done : List (List (List Item))

namespace Grouping

def start : Grouping := { word := [], argv := [], outer := [], done := [] }

def command (g : Grouping) : List (List Item) := if g.word = [] then g.argv else g.argv ++ [g.word]

def add (g : Grouping) : Item → Grouping
  | .wordEnd => { g with word := [], argv := g.argv ++ [g.word] }
  | .op _ _ => { g with word := [], argv := [], done := g.done ++ [g.command] }
  | .substOpen quoted =>
    { g with word := [], argv := [], outer := (g.word ++ [Item.substOpen quoted], g.argv) :: g.outer }
  | .substClose =>
    match g.outer with
    | [] => g
    | (word, argv) :: outer =>
      { word := word, argv := argv, outer := outer, done := g.done ++ [g.command] }
  | i => { g with word := g.word ++ [i] }

end Grouping

def commands (items : List Item) : List (List (List Item)) :=
  let g := items.foldl Grouping.add Grouping.start
  g.done ++ [g.command]

def literal (text : List Char) : List Item := text.map Item.char

def simple (words : List (List Item)) : List Item := (words.map (· ++ [Item.wordEnd])).flatten

def pipe (left right : List Item) : List Item := left ++ Item.op '|' false :: right

def sequential (first second : List Item) : List Item := first ++ Item.op ';' false :: second

def assignOutput (name : List Char) (commands : List Item) : List Item :=
  literal name ++ Item.assign :: Item.substOpen false :: commands ++ [Item.substClose, Item.wordEnd]

end WslPlus.Shell
