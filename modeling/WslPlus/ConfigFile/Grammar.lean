import Mathlib.Algebra.GroupWithZero.Nat
import WslPlus.ConfigFile.Modes

/-!
# The documented grammar

The comment at the head of the source describes a file as blank lines, comments,
section headers and key-value lines. A line here is one way to write such a line
down; what it should be read as is defined beside it, without the machine. A value
is a sequence of pieces: bare characters, escapes, continuations and quoted runs.
-/

namespace WslPlus.ConfigFile

open List

def isText (c : WChar) : Bool := c != L '\n' && c != L '\r' && c != weof

def Blanks := { t : List WChar // t.all isHSpace = true }

def CommentText := { t : List WChar // t.all isText = true }

def isName : List WChar → Bool
  | [] => false
  | c :: t => isalpha c && t.all isalnum

def Name := { t : List WChar // isName t = true }

inductive Escape where
  | backslash
  | quote
  | b
  | n
  | t
deriving DecidableEq

def Escape.letter : Escape → WChar
  | .backslash => L '\\'
  | .quote => L '"'
  | .b => L 'b'
  | .n => L 'n'
  | .t => L 't'

def Escape.unit : Escape → WChar
  | .backslash => L '\\'
  | .quote => L '"'
  | .b => 8
  | .n => 10
  | .t => 9

inductive Atom where
  | char (c : WChar)
  | escape (e : Escape)
  | continuation
deriving DecidableEq

namespace Atom

def render : Atom → List WChar
  | .char c => [c]
  | .escape e => [L '\\', e.letter]
  | .continuation => [L '\\', L '\n']

def units : Atom → List WChar
  | .char c => [c]
  | .escape e => [e.unit]
  | .continuation => []

def breaks : Atom → Nat
  | .continuation => 1
  | _ => 0

def inQuotes : Atom → Bool
  | .char c => isText c && c != L '"' && c != L '\\'
  | _ => true

def outside (a : Atom) : Bool := a.inQuotes && a != .char (L '#')

end Atom

inductive Piece where
  | bare (a : Atom)
  | quoted (as : List Atom)

namespace Piece

def render : Piece → List WChar
  | .bare a => a.render
  | .quoted as => L '"' :: as.flatMap Atom.render ++ [L '"']

def units : Piece → List (WChar × Bool)
  | .bare (.char c) => [(c, isHSpace c)]
  | .bare a => a.units.map (·, false)
  | .quoted as => (as.flatMap Atom.units).map (·, false)

def breaks : Piece → Nat
  | .bare a => a.breaks
  | .quoted as => (as.map Atom.breaks).sum

def valid : Piece → Bool
  | .bare a => a.outside
  | .quoted as => as.all Atom.inQuotes

def isBlank : Piece → Bool
  | .bare (.char c) => isHSpace c
  | _ => false

end Piece

/-- The blanks after the `=` are not part of the value, so it starts with none. -/
def Value := { ps : List Piece // ps.all Piece.valid = true ∧ (ps.head?.any Piece.isBlank) = false }

def units (ps : List Piece) : List (WChar × Bool) := ps.flatMap Piece.units

namespace Value

def render (v : Value) : List WChar := v.1.flatMap Piece.render

def decoded (v : Value) : List WChar := ((units v.1).rdropWhile Prod.snd).map Prod.fst

def breaks (v : Value) : Nat := (v.1.map Piece.breaks).sum

end Value

inductive Line where
  | blank (lead : Blanks)
  | comment (lead : Blanks) (text : CommentText)
  | header (lead : Blanks) (name : Name) (tail : Blanks) (note : Option CommentText)
  | setting (lead : Blanks) (name : Name) (before after : Blanks) (value : Value)
      (note : Option CommentText)

def renderNote : Option CommentText → List WChar
  | none => []
  | some t => L '#' :: t.1

def Line.render : Line → List WChar
  | .blank lead => lead.1
  | .comment lead text => lead.1 ++ L '#' :: text.1
  | .header lead name tail note =>
    lead.1 ++ L '[' :: name.1 ++ L ']' :: tail.1 ++ renderNote note
  | .setting lead name before after value note =>
    lead.1 ++ name.1 ++ before.1 ++ L '=' :: after.1 ++ value.render ++ renderNote note

def renderLines (lines : List Line) : List WChar := [L '\n'].intercalate (lines.map Line.render)

/-- One setting with the number of the line on which its value ends. -/
structure Report where
  name : List WChar
  value : List WChar
  line : Nat
deriving DecidableEq

def sectionDot (sect name : List WChar) : List WChar :=
  if sect = [] then name else sect ++ L '.' :: name

def expected (sect : List WChar) (n : Nat) : List Line → List Report
  | [] => []
  | .blank _ :: lines => expected sect (n + 1) lines
  | .comment _ _ :: lines => expected sect (n + 1) lines
  | .header _ name _ _ :: lines => expected name.1 (n + 1) lines
  | .setting _ name _ _ value _ :: lines =>
    ⟨sectionDot sect name.1, value.decoded, n + value.breaks⟩ ::
      expected sect (n + value.breaks + 1) lines

def Setting.report (s : Setting) : Report := ⟨widen s.name, widen s.value, s.line⟩

def Args.reading (skip : Bool) : Args :=
  { skipInvalidLines := skip, hasFile := true, outputKey := none, removeKey := false }

def ParsedExactly (skip : Bool) (lines : List Line) : Prop :=
  (parseConfigFile (Args.reading skip) (renderLines lines)).1 = .done 0 ∧
    (parseConfigFile (Args.reading skip) (renderLines lines)).2.settings.map Setting.report =
      expected [] 1 lines

/-- A character that a `char` holds and that does not end a C string. -/
def isByte (c : WChar) : Bool := 0 < c && c < 256

def Value.kept (v : Value) : List (WChar × Bool) := units (v.1.rdropWhile Piece.isBlank)

/-- No unquoted blanks before a continuation or an empty run at the end, and every
character fits in a `char` other than NUL. -/
def Value.exact (v : Value) : Bool :=
  !(v.kept.getLast?.any Prod.snd) && v.kept.all fun u => isByte u.1

def Line.exact : Line → Bool
  | .setting _ _ _ _ value _ => value.exact
  | _ => true

section Value

variable (skip : Bool) {s : State} {c : WChar}

theorem scan_cons (a : Args) (x : Status × State) (c : WChar) (text : List WChar) :
    scan a x (c :: text) = scan a (step a x c) text := rfl

theorem scan_append (a : Args) (x : Status × State) (t u : List WChar) :
    scan a x (t ++ u) = scan a (scan a x t) u := foldl_append

def State.took (s : State) (a : Atom) : State :=
  match a with
  | .char c =>
    { s with
      ch := c, value := s.value ++ [narrow c]
      trimmedLength := if isHSpace c then s.trimmedLength else s.value.length + 1 }
  | .escape e =>
    { s with ch := L '\\', value := s.value ++ [narrow e.unit], trimmedLength := s.value.length + 1 }
  | .continuation =>
    { s with ch := L '\\', trimmedLength := s.value.length, line := s.line + 1 }

theorem isText_iff : isText c = true ↔ c ≠ L '\n' ∧ c ≠ L '\r' ∧ c ≠ weof := by
  simp [isText, and_assoc]

theorem step_char (hc : (Atom.char c).inQuotes = true) (hh : s.inQuote = false → c ≠ L '#') :
    step (Args.reading skip) (.reading .value, s) c = (.reading .value, s.took (.char c)) := by
  simp only [Atom.inQuotes, Bool.and_eq_true, bne_iff_ne] at hc
  obtain ⟨⟨htext, hquote⟩, hback⟩ := hc
  obtain ⟨h1, h2, h3⟩ := isText_iff.mp htext
  have hhash : ¬ (c = L '#' ∧ !s.inQuote) := by
    rintro ⟨rfl, hq⟩
    exact hh (by simpa using hq) rfl
  change valueLoop (Args.reading skip) (s.fetch c) = _
  have hch : (s.fetch c).ch = c := rfl
  have hinq : (s.fetch c).inQuote = s.inQuote := rfl
  have hecho : (s.fetch c).echo (Args.reading skip) = s.fetch c := rfl
  simp only [valueLoop, hecho, ite_self, hch, h1, h2, h3, or_self, if_false, hquote, hback, hinq, hhash]
  simp only [valueNext, State.push, State.took, State.fetch, length_append, length_singleton]
  split <;> rfl

theorem step_backslash (s : State) :
    step (Args.reading skip) (.reading .value, s) (L '\\') = (.reading .escape, s.fetch (L '\\')) := by
  change valueLoop (Args.reading skip) (s.fetch (L '\\')) = _
  have hch : (s.fetch (L '\\')).ch = L '\\' := rfl
  have hecho : (s.fetch (L '\\')).echo (Args.reading skip) = s.fetch (L '\\') := rfl
  have h1 : ¬ (L '\\' = weof ∨ L '\\' = L '\n' ∨ L '\\' = L '\r') := by decide
  have h2 : L '\\' ≠ L '"' := by decide
  simp only [valueLoop, hecho, ite_self, hch, h1, h2, if_false, if_true]

theorem step_quote (s : State) :
    step (Args.reading skip) (.reading .value, s) (L '"') = (.reading .value, { s with
        ch := L '"', inQuote := !s.inQuote, trimmedLength := s.value.length }) := by
  change valueLoop (Args.reading skip) (s.fetch (L '"')) = _
  have hch : (s.fetch (L '"')).ch = L '"' := rfl
  have hecho : (s.fetch (L '"')).echo (Args.reading skip) = s.fetch (L '"') := rfl
  have h1 : ¬ (L '"' = weof ∨ L '"' = L '\n' ∨ L '"' = L '\r') := by decide
  have h2 : isHSpace (L '"') = false := by decide
  simp only [valueLoop, hecho, ite_self, hch, h1, if_false, if_true, valueNext, h2, Bool.false_eq_true]
  rfl

theorem valueNext_backslash (hch : s.ch = L '\\') :
    valueNext s = (.reading .value, { s with trimmedLength := s.value.length }) := by
  have hsp : isHSpace (L '\\') = false := by decide
  simp only [valueNext, hch, hsp, Bool.false_eq_true, if_false]

theorem step_escape (hch : s.ch = L '\\') (e : Escape) :
    step (Args.reading skip) (.reading .escape, s) e.letter = (.reading .value, s.took (.escape e)) := by
  have hput : ∀ c, (if (Args.reading skip).updateConfigFile && !s.firstMatchedKey && !s.matchedKey &&
      c != weof then s.put [c] else s) = s := fun _ => rfl
  have hnext : ∀ b : UInt8, valueNext (s.push b) = (.reading .value, { s with
      value := s.value ++ [b], trimmedLength := (s.value ++ [b]).length }) := valueNext_push hch
  change onEscape (Args.reading skip) s e.letter = _
  have hres : ∀ b : UInt8, valueNext (s.push b) = (.reading .value, { s with
      ch := L '\\', value := s.value ++ [b], trimmedLength := s.value.length + 1 }) := by
    intro b
    rw [hnext, ← hch, length_append, length_singleton]
  cases e with
  | backslash => exact hres (narrow (L '\\'))
  | quote => exact hres (narrow (L '"'))
  | b => exact hres 8
  | n => exact hres 10
  | t => exact hres 9

theorem step_continuation (hch : s.ch = L '\\') :
    step (Args.reading skip) (.reading .escape, s) (L '\n') = (.reading .value, s.took .continuation) := by
  have hnext := valueNext_backslash (s := { s with line := s.line + 1 }) hch
  change valueNext { s with line := s.line + 1 } = _
  rw [hnext, State.took, ← hch]

theorem scan_atom {a : Atom} (ha : a.inQuotes = true) (hh : s.inQuote = false → a ≠ .char (L '#')) :
    scan (Args.reading skip) (.reading .value, s) a.render = (.reading .value, s.took a) := by
  cases a with
  | char c =>
    refine step_char skip ha fun hq hc => ?_
    exact hh hq (by rw [hc])
  | escape e =>
    rw [Atom.render, scan_cons, step_backslash, scan_cons, step_escape skip rfl]
    rfl
  | continuation =>
    rw [Atom.render, scan_cons, step_backslash, scan_cons, step_continuation skip rfl]
    rfl

/-- What the rest of a line is read with: everything but the value, its length
without blanks and the last character. -/
structure SameBut (s s' : State) (v : List UInt8) (n : Nat) : Prop where
  eof : s'.eof = s.eof
  trailing : s'.trailingComment = s.trailingComment
  inQuote : s'.inQuote = s.inQuote
  length : s'.sectionLength = s.sectionLength
  key : s'.key = s.key
  first : s'.firstMatchedKey = s.firstMatchedKey
  matched : s'.matchedKey = s.matchedKey
  settings : s'.settings = s.settings
  value : s'.value = s.value ++ v
  line : s'.line = s.line + n

theorem sameBut_took (s : State) (a : Atom) : SameBut s (s.took a) (a.units.map narrow) a.breaks := by
  cases a with
  | char c => exact ⟨rfl, rfl, rfl, rfl, rfl, rfl, rfl, rfl, rfl, rfl⟩
  | escape e => exact ⟨rfl, rfl, rfl, rfl, rfl, rfl, rfl, rfl, rfl, rfl⟩
  | continuation =>
    exact ⟨rfl, rfl, rfl, rfl, rfl, rfl, rfl, rfl, (append_nil _).symm, rfl⟩

theorem SameBut.trans {s s' s'' : State} {v w : List UInt8} {m n : Nat} (h : SameBut s s' v m)
    (h' : SameBut s' s'' w n) : SameBut s s'' (v ++ w) (m + n) where
  eof := h'.eof.trans h.eof
  trailing := h'.trailing.trans h.trailing
  inQuote := h'.inQuote.trans h.inQuote
  length := h'.length.trans h.length
  key := h'.key.trans h.key
  first := h'.first.trans h.first
  matched := h'.matched.trans h.matched
  settings := h'.settings.trans h.settings
  value := by rw [h'.value, h.value, append_assoc]
  line := by rw [h'.line, h.line, Nat.add_assoc]

theorem scan_atoms {as : List Atom} (has : as.all Atom.inQuotes = true) (hq : s.inQuote = true) :
    ∃ s', scan (Args.reading skip) (.reading .value, s) (as.flatMap Atom.render) = (.reading .value, s') ∧
      SameBut s s' ((as.flatMap Atom.units).map narrow) (as.map Atom.breaks).sum := by
  induction as generalizing s with
  | nil =>
    exact ⟨s, rfl, rfl, rfl, rfl, rfl, rfl, rfl, rfl, rfl, (append_nil _).symm, rfl⟩
  | cons a as ih =>
    simp only [all_cons, Bool.and_eq_true] at has
    have htook := sameBut_took s a
    obtain ⟨s', hscan, hsame⟩ := ih has.2 (htook.inQuote.trans hq)
    refine ⟨s', ?_, ?_⟩
    · rw [flatMap_cons, scan_append, scan_atom skip has.1 (by simp [hq]), hscan]
    · have h := htook.trans hsame
      rwa [← map_append] at h

/-- Before the next piece of a value of which these pieces have been read. -/
structure Reading (s s' : State) (ps : List Piece) : Prop where
  same : SameBut s s' ((units ps).map fun u => narrow u.1) (ps.map Piece.breaks).sum
  trimmed : s'.trimmedLength = (units (ps.rdropWhile Piece.isBlank)).length

theorem units_append (ps : List Piece) (p : Piece) : units (ps ++ [p]) = units ps ++ p.units := by
  simp [units]

theorem reading_append {s s' s'' : State} {ps : List Piece} (p : Piece) (hv : s.value = [])
    (h : Reading s s' ps) (h' : SameBut s' s'' (p.units.map fun u => narrow u.1) p.breaks)
    (ht : s''.trimmedLength = if p.isBlank then s'.trimmedLength else s''.value.length) :
    Reading s s'' (ps ++ [p]) := by
  have hsame : SameBut s s'' ((units (ps ++ [p])).map fun u => narrow u.1)
      ((ps ++ [p]).map Piece.breaks).sum := by
    have hboth := h.same.trans h'
    rwa [← map_append, ← units_append, ← sum_singleton (x := p.breaks), ← sum_append,
      ← map_singleton (f := Piece.breaks), ← map_append] at hboth
  refine ⟨hsame, ?_⟩
  rw [ht]
  cases hb : p.isBlank with
  | true =>
    rw [if_pos rfl, h.trimmed, rdropWhile_concat_pos _ _ _ hb]
  | false =>
    rw [if_neg (by decide), rdropWhile_concat_neg _ _ _ (by simp [hb]), hsame.value, hv]
    simp

theorem scan_piece {s s' : State} {ps : List Piece} {p : Piece} (hv : s.value = [])
    (hq : s.inQuote = false) (h : Reading s s' ps) (hp : p.valid = true) :
    ∃ s'', scan (Args.reading skip) (.reading .value, s') p.render = (.reading .value, s'') ∧
      Reading s s'' (ps ++ [p]) := by
  cases p with
  | bare a =>
    simp only [Piece.valid, Atom.outside, Bool.and_eq_true, bne_iff_ne] at hp
    refine ⟨s'.took a, scan_atom skip hp.1 fun _ => hp.2, reading_append (.bare a) hv h ?_ ?_⟩
    · have hunits : ((Piece.bare a).units.map fun u => narrow u.1) = a.units.map narrow := by
        cases a <;> rfl
      rw [hunits]
      exact sameBut_took s' a
    · cases a with
      | char c =>
        simp only [State.took, Piece.isBlank, length_append, length_singleton]
      | escape e =>
        simp only [State.took, Piece.isBlank, length_append, length_singleton,
          Bool.false_eq_true, if_false]
      | continuation => rfl
  | quoted as =>
    have hopen := step_quote skip s'
    have hq' : s'.inQuote = false := h.same.inQuote.trans hq
    obtain ⟨t, hscan, hsame⟩ := scan_atoms skip
      (s := { s' with ch := L '"', inQuote := !s'.inQuote, trimmedLength := s'.value.length }) hp
      (by simp [hq'])
    have hclose := step_quote skip t
    refine ⟨{ t with ch := L '"', inQuote := !t.inQuote, trimmedLength := t.value.length }, ?_, ?_⟩
    · rw [Piece.render, cons_append, scan_cons, hopen, scan_append, hscan, scan_cons, hclose]
      rfl
    · have hinq : (!t.inQuote) = s'.inQuote := by
        rw [hsame.inQuote]
        simp
      have hunits : ((Piece.quoted as).units.map fun u => narrow u.1) =
          (as.flatMap Atom.units).map narrow := by
        simp [Piece.units]
      refine reading_append (.quoted as) hv h ?_ rfl
      rw [hunits]
      exact ⟨hsame.eof, hsame.trailing, hinq, hsame.length, hsame.key, hsame.first, hsame.matched,
        hsame.settings, hsame.value, hsame.line⟩

theorem scan_pieces {s s' : State} {ps qs : List Piece} (hv : s.value = []) (hq : s.inQuote = false)
    (h : Reading s s' ps) (hqs : qs.all Piece.valid = true) :
    ∃ s'', scan (Args.reading skip) (.reading .value, s') (qs.flatMap Piece.render) =
        (.reading .value, s'') ∧ Reading s s'' (ps ++ qs) := by
  induction qs generalizing s' ps with
  | nil => exact ⟨s', rfl, by rwa [append_nil]⟩
  | cons p qs ih =>
    simp only [all_cons, Bool.and_eq_true] at hqs
    obtain ⟨t, hscan, ht⟩ := scan_piece skip hv hq h hqs.1
    obtain ⟨s'', hscan', hs''⟩ := ih ht hqs.2
    refine ⟨s'', ?_, ?_⟩
    · rw [flatMap_cons, scan_append, hscan, hscan']
    · rwa [append_assoc] at hs''

end Value

section Lines

variable (skip : Bool) {s : State} {c : WChar} {sect : List UInt8} {n : Nat} {settings : List Setting}

/-- Before the first character of a line. -/
structure AtLine (s : State) (sect : List UInt8) (n : Nat) (settings : List Setting) : Prop where
  eof : s.eof = false
  trailing : s.trailingComment = false
  line : s.line = n
  length : s.sectionLength = sect.length
  key : resize s.key s.sectionLength = sect
  settings : s.settings = settings

/-- The line is complete: a newline leads to the next one and the end of the file
to the end. -/
structure Closes (x : Status × State) (sect : List UInt8) (n : Nat) (settings : List Setting) :
    Prop where
  newline : ∃ s', step (Args.reading skip) x (L '\n') = (.reading .leadingSpace, s') ∧
    AtLine s' sect (n + 1) settings
  eof : ∃ s', finish (Args.reading skip) x = (.done 0, s') ∧ s'.settings = settings

theorem checkEof_next (he : s.eof = false) : checkEof (Args.reading skip) s = (.reading .leadingSpace, s) := by
  simp [checkEof, he]

theorem checkEof_done (he : s.eof = true) : checkEof (Args.reading skip) s = (.done 0, s) := by
  have hun : s.unwritten (Args.reading skip) = false := rfl
  simp [checkEof, he, hun]

theorem newLine_newline (hch : s.ch = L '\n') (he : s.eof = false) (ht : s.trailingComment = false) :
    newLine (Args.reading skip) s = (.reading .leadingSpace, { s with line := s.line + 1 }) := by
  have hne : L '\n' ≠ L '#' := by decide
  have hflush : ∀ s : State, s.flush (Args.reading skip) = s := fun _ => rfl
  rw [newLine_of_not_trailing ht]
  simp only [newLineLoop, hflush, hch, hne, if_false]
  rw [← hch]
  exact checkEof_next skip he

theorem newLine_hash (hch : s.ch = L '#') (ht : s.trailingComment = true) :
    newLine (Args.reading skip) s = (.reading .comment, s) := by
  have hflush : s.flush (Args.reading skip) = s := rfl
  simp [newLine, ht, newLineLoop, hflush, hch]

theorem finish_done {x : Status × State} {s' : State} (he : s'.eof = true)
    (h : readEof (Args.reading skip) x = (.done 0, s')) : finish (Args.reading skip) x = (.done 0, s') := by
  rw [← checkEof_done skip he] at h ⊢
  exact finish_of_readEof he h

theorem closes_lineStart (h : AtLine s sect n settings) :
    Closes skip (.reading .leadingSpace, s) sect n settings := by
  have hsp : isHSpace (L '\n') = false := by decide
  have hsp' : isHSpace weof = false := by decide
  have h1 : L '\n' ≠ weof := by decide
  have h2 : L '\n' ≠ L '\r' := by decide
  have h3 : L '\n' ≠ L '#' := by decide
  have hflush : ∀ s : State, s.flush (Args.reading skip) = s := fun _ => rfl
  constructor
  · refine ⟨{ s with ch := L '\n', line := s.line + 1 }, ?_, ?_⟩
    · change onLeadingSpace (Args.reading skip) (s.fetch (L '\n')) = _
      have heof : ({ s with ch := L '\n', line := s.line + 1 } : State).eof = false := h.eof
      simp only [onLeadingSpace, State.fetch, hsp, Bool.false_eq_true, if_false, h1, h2, if_true,
        newLineLoop, hflush, h3]
      exact checkEof_next skip heof
    · exact ⟨h.eof, h.trailing, by rw [← h.line], h.length, h.key, h.settings⟩
  · refine ⟨{ s with eof := true, ch := weof }, finish_done skip rfl ?_, h.settings⟩
    change onLeadingSpace (Args.reading skip) { s with eof := true, ch := weof } = _
    simp only [onLeadingSpace, hsp', Bool.false_eq_true, if_false, if_true]
    rw [newLineLoop_weof rfl]
    exact checkEof_done skip rfl

theorem closes_comment (he : s.eof = false) (hl : s.sectionLength = sect.length)
    (hk : resize s.key s.sectionLength = sect) : Closes skip (.reading .comment, s) sect s.line s.settings := by
  have h1 : L '\n' ≠ L '\r' := by decide
  have h2 : weof ≠ L '\r' := by decide
  have h3 : weof ≠ L '\n' := by decide
  constructor
  · refine ⟨{ s with ch := L '\n', line := s.line + 1, trailingComment := false }, ?_, ?_⟩
    · change onComment (Args.reading skip) (s.fetch (L '\n')) = _
      have heq : onComment (Args.reading skip) (s.fetch (L '\n')) = checkEof (Args.reading skip)
          { s with ch := L '\n', line := s.line + 1, trailingComment := false } := by
        simp [onComment, commentEnd, State.fetch, State.echo, Args.updateConfigFile, Args.reading, h1]
      rw [heq]
      exact checkEof_next skip he
    · exact ⟨he, rfl, rfl, hl, hk, rfl⟩
  · refine ⟨{ s with eof := true, ch := weof, trailingComment := false }, finish_done skip rfl ?_, rfl⟩
    change onComment (Args.reading skip) { s with eof := true, ch := weof } = _
    have heq : onComment (Args.reading skip) { s with eof := true, ch := weof } =
        checkEof (Args.reading skip) { s with eof := true, ch := weof, trailingComment := false } := by
      simp [onComment, commentEnd, h2, h3]
    rw [heq]
    exact checkEof_done skip rfl

variable {t : List WChar}

theorem scan_comment (ht : t.all isText = true) :
    ∃ ch, scan (Args.reading skip) (.reading .comment, s) t = (.reading .comment, { s with ch := ch }) := by
  induction t generalizing s with
  | nil => exact ⟨s.ch, rfl⟩
  | cons c t ih =>
    simp only [all_cons, Bool.and_eq_true] at ht
    obtain ⟨h1, h2, h3⟩ := isText_iff.mp ht.1
    have hstep : step (Args.reading skip) (.reading .comment, s) c = (.reading .comment, s.fetch c) := by
      change onComment (Args.reading skip) (s.fetch c) = _
      simp [onComment, commentEnd, State.fetch, State.echo, Args.updateConfigFile, Args.reading, h1, h2, h3]
    obtain ⟨ch, hch⟩ := ih (s := s.fetch c) ht.2
    exact ⟨ch, by rw [scan_cons, hstep, hch]; rfl⟩

theorem closes_note {t : CommentText} (he : s.eof = false) (hl : s.sectionLength = sect.length)
    (hk : resize s.key s.sectionLength = sect) :
    Closes skip (scan (Args.reading skip) (.reading .comment, s) t.1) sect s.line s.settings := by
  obtain ⟨ch, hscan⟩ := scan_comment skip (s := s) t.2
  rw [hscan]
  exact closes_comment skip (s := { s with ch := ch }) he hl hk

def Site.skipsBlanks : Site → Bool
  | .leadingSpace | .sectionSpace | .keySpace | .valueSpace => true
  | _ => false

theorem scan_blanks (site : Site) (hsite : site.skipsBlanks = true) (t : Blanks) :
    ∃ ch, scan (Args.reading skip) (.reading site, s) t.1 = (.reading site, { s with ch := ch }) := by
  obtain ⟨t, ht⟩ := t
  have hstep : ∀ (s : State) (c : WChar), isHSpace c = true →
      step (Args.reading skip) (.reading site, s) c = (.reading site, s.fetch c) := by
    intro s c hc
    have hch : isHSpace (s.fetch c).ch = true := hc
    cases site with
    | leadingSpace => exact if_pos hch
    | sectionSpace => exact if_pos hch
    | keySpace => exact if_pos hch
    | valueSpace => exact if_pos hch
    | _ => cases hsite
  simp only
  induction t generalizing s with
  | nil => exact ⟨s.ch, rfl⟩
  | cons c t ih =>
    simp only [all_cons, Bool.and_eq_true] at ht
    obtain ⟨ch, hch⟩ := ih (s := s.fetch c) ht.2
    exact ⟨ch, by rw [scan_cons, hstep s c ht.1, hch]; rfl⟩

theorem scan_alnum (site : Site) (hsite : site = .sectionName ∨ site = .keyName) (ht : t.all isalnum = true) :
    ∃ ch, scan (Args.reading skip) (.reading site, s) t =
      (.reading site, { s with ch := ch, key := s.key ++ t.map narrow }) := by
  induction t generalizing s with
  | nil => exact ⟨s.ch, by simp [scan]⟩
  | cons c t ih =>
    simp only [all_cons, Bool.and_eq_true] at ht
    have hch : isalnum (s.fetch c).ch = true := ht.1
    have hstep : step (Args.reading skip) (.reading site, s) c =
        (.reading site, { s with ch := c, key := s.key ++ [narrow c] }) := by
      rcases hsite with rfl | rfl
      · exact if_pos hch
      · exact if_pos hch
    obtain ⟨ch, hrest⟩ := ih (s := { s with ch := c, key := s.key ++ [narrow c] }) ht.2
    exact ⟨ch, by rw [scan_cons, hstep, hrest]; simp⟩

theorem closes_blank (h : AtLine s sect n settings) (lead : Blanks) :
    Closes skip (scan (Args.reading skip) (.reading .leadingSpace, s) lead.1) sect n settings := by
  obtain ⟨ch, hscan⟩ := scan_blanks skip (s := s) .leadingSpace rfl lead
  rw [hscan]
  exact closes_lineStart skip ⟨h.eof, h.trailing, h.line, h.length, h.key, h.settings⟩

theorem closes_commentLine (h : AtLine s sect n settings) (lead : Blanks) (text : CommentText) :
    Closes skip (scan (Args.reading skip) (.reading .leadingSpace, s) (lead.1 ++ L '#' :: text.1))
      sect n settings := by
  obtain ⟨ch, hscan⟩ := scan_blanks skip (s := s) .leadingSpace rfl lead
  have hsp : isHSpace (L '#') = false := by decide
  have h1 : L '#' ≠ weof := by decide
  have h2 : L '#' ≠ L '\r' := by decide
  have h3 : L '#' ≠ L '\n' := by decide
  have hflush : ∀ s : State, s.flush (Args.reading skip) = s := fun _ => rfl
  have hstep : step (Args.reading skip) (.reading .leadingSpace, { s with ch := ch }) (L '#') =
      (.reading .comment, { s with ch := L '#' }) := by
    change onLeadingSpace (Args.reading skip) { s with ch := L '#' } = _
    simp only [onLeadingSpace, hsp, Bool.false_eq_true, if_false, h1, h2, h3, if_true, newLineLoop, hflush]
  rw [scan_append, hscan, scan_cons, hstep, ← h.line, ← h.settings]
  exact closes_note skip (s := { s with ch := L '#' }) h.eof h.length h.key

theorem scan_header (lead : Blanks) (name : Name) (tail : Blanks) :
    ∃ ch, scan (Args.reading skip) (.reading .leadingSpace, s) (lead.1 ++ L '[' :: name.1 ++ L ']' :: tail.1) =
      (.reading .sectionSpace, { s with ch := ch, key := name.1.map narrow }) := by
  obtain ⟨name, hname⟩ := name
  cases name with
  | nil => cases hname
  | cons c t =>
    simp only [isName, Bool.and_eq_true] at hname
    obtain ⟨ch, hlead⟩ := scan_blanks skip (s := s) .leadingSpace rfl lead
    have hsp : isHSpace (L '[') = false := by decide
    have h1 : L '[' ≠ weof := by decide
    have h2 : L '[' ≠ L '\r' := by decide
    have h3 : L '[' ≠ L '\n' := by decide
    have h4 : L '[' ≠ L '#' := by decide
    have hopen : step (Args.reading skip) (.reading .leadingSpace, { s with ch := ch }) (L '[') =
        (.reading .sectionFirst, { s with ch := L '[' }) := by
      change onLeadingSpace (Args.reading skip) { s with ch := L '[' } = _
      have hinsert : insertBeforeSection (Args.reading skip) { s with ch := L '[' } =
          some { s with ch := L '[' } := rfl
      simp only [onLeadingSpace, hsp, Bool.false_eq_true, if_false, h1, h2, h3, h4, if_true, hinsert]
      rfl
    have hfirst : step (Args.reading skip) (.reading .sectionFirst, { s with ch := L '[' }) c =
        (.reading .sectionName, { s with ch := c, key := [narrow c] }) := by
      change onSectionFirst (Args.reading skip) { s with ch := c } = _
      simp only [onSectionFirst, hname.1, Bool.not_true, Bool.false_eq_true, if_false]
      rfl
    obtain ⟨ch', hrest⟩ := scan_alnum skip (s := { s with ch := c, key := [narrow c] })
      .sectionName (.inl rfl) hname.2
    have hclose : ∀ s' : State, step (Args.reading skip) (.reading .sectionName, s') (L ']') =
        (.reading .sectionSpace, s'.fetch (L ']')) := by
      intro s'
      change onSectionName (Args.reading skip) (s'.fetch (L ']')) = _
      have halnum : isalnum (L ']') = false := by decide
      simp only [onSectionName, State.fetch, halnum, Bool.false_eq_true, if_false, ne_eq, not_true_eq_false]
      rfl
    obtain ⟨ch'', htail⟩ := scan_blanks skip
      (s := { s with ch := L ']', key := narrow c :: t.map narrow }) .sectionSpace rfl tail
    refine ⟨ch'', ?_⟩
    rw [append_assoc, scan_append, hlead, cons_append, scan_cons, hopen, cons_append,
      scan_cons, hfirst, scan_append, hrest, scan_cons, hclose]
    exact htail

def State.entered (s : State) (c : WChar) (key : List UInt8) : State :=
  { s with ch := c, key := key, sectionLength := key.length }

theorem closes_header (h : AtLine s sect n settings) (lead : Blanks) (name : Name) (tail : Blanks)
    (note : Option CommentText) :
    Closes skip (scan (Args.reading skip) (.reading .leadingSpace, s)
      (lead.1 ++ L '[' :: name.1 ++ L ']' :: tail.1 ++ renderNote note)) (name.1.map narrow) n settings := by
  obtain ⟨ch, hscan⟩ := scan_header skip (s := s) lead name tail
  rw [scan_append, hscan]
  generalize name.1.map narrow = key
  have hsp : isHSpace (L '\n') = false := by decide
  have hsp' : isHSpace weof = false := by decide
  have hsph : isHSpace (L '#') = false := by decide
  cases note with
  | none =>
    constructor
    · refine ⟨{ s.entered (L '\n') key with line := s.line + 1 }, ?_, ?_⟩
      · change onSectionSpace (Args.reading skip) { s with ch := L '\n', key := key } = _
        simp only [onSectionSpace, hsp, Bool.false_eq_true, if_false, or_true, true_or, if_true]
        exact newLine_newline skip (s := s.entered (L '\n') key) rfl h.eof h.trailing
      · exact ⟨h.eof, h.trailing, by rw [← h.line], rfl, resize_self _, h.settings⟩
    · refine ⟨{ s.entered weof key with eof := true, line := s.line + 1 }, finish_done skip rfl ?_, h.settings⟩
      change onSectionSpace (Args.reading skip) { s with eof := true, ch := weof, key := key } = _
      simp only [onSectionSpace, hsp', Bool.false_eq_true, if_false, true_or, if_true]
      have hnew := newLine_weof (a := Args.reading skip) (s := { s.entered weof key with eof := true })
        rfl h.trailing
      exact hnew.trans (checkEof_done skip rfl)
  | some t =>
    have h1 : ¬ (L '#' = weof ∨ L '#' = L '\n' ∨ L '#' = L '\r') := by decide
    have hstep : step (Args.reading skip) (.reading .sectionSpace, { s with ch := ch, key := key }) (L '#') =
        (.reading .comment, { s.entered (L '#') key with trailingComment := true }) := by
      change onSectionSpace (Args.reading skip) { s with ch := L '#', key := key } = _
      simp only [onSectionSpace, hsph, Bool.false_eq_true, if_false, h1, if_true]
      exact newLine_hash skip rfl rfl
    rw [renderNote, scan_cons, hstep, ← h.line, ← h.settings]
    exact closes_note skip (s := { s.entered (L '#') key with trailingComment := true }) h.eof rfl
      (resize_self _)

theorem scan_equals (before : Blanks) :
    scan (Args.reading skip) (.reading .keyName, s) (before.1 ++ [L '=']) =
      (.reading .valueSpace, s.fetch (L '=')) := by
  obtain ⟨before, hbefore⟩ := before
  have hsp : isHSpace (L '=') = false := by decide
  have halnum : isalnum (L '=') = false := by decide
  have hspace : ∀ s : State, step (Args.reading skip) (.reading .keySpace, s) (L '=') =
      (.reading .valueSpace, s.fetch (L '=')) := by
    intro s
    change onKeySpace (Args.reading skip) (s.fetch (L '=')) = _
    simp only [onKeySpace, State.fetch, hsp, Bool.false_eq_true, if_false, ne_eq, not_true_eq_false]
    rfl
  cases before with
  | nil =>
    change onKeyName (Args.reading skip) (s.fetch (L '=')) = _
    simp only [onKeyName, State.fetch, halnum, Bool.false_eq_true, if_false]
    exact hspace s
  | cons c t =>
    simp only [all_cons, Bool.and_eq_true] at hbefore
    have hfirst : step (Args.reading skip) (.reading .keyName, s) c = (.reading .keySpace, s.fetch c) := by
      have hc : isalnum c = false := by
        rcases (isHSpace_iff c).mp hbefore.1 with rfl | rfl <;> decide
      change onKeyName (Args.reading skip) (s.fetch c) = _
      simp only [onKeyName, onKeySpace, State.fetch, hc, hbefore.1, Bool.false_eq_true, if_false, if_true]
      rfl
    obtain ⟨ch, hrest⟩ := scan_blanks skip (s := s.fetch c) .keySpace rfl ⟨t, hbefore.2⟩
    rw [cons_append, scan_cons, hfirst, scan_append, hrest, scan_cons, hspace]
    rfl

theorem scan_key (h : AtLine s sect n settings) (lead : Blanks) (name : Name) (before after : Blanks) :
    ∃ ch, scan (Args.reading skip) (.reading .leadingSpace, s)
        (lead.1 ++ name.1 ++ before.1 ++ L '=' :: after.1) = (.reading .valueSpace, { s with
        ch := ch, key := Reader.qualify ⟨sect, .lineStart⟩ (name.1.map narrow) }) := by
  obtain ⟨name, hname⟩ := name
  cases name with
  | nil => cases hname
  | cons c t =>
    simp only [isName, Bool.and_eq_true] at hname
    obtain ⟨ch, hlead⟩ := scan_blanks skip (s := s) .leadingSpace rfl lead
    have halnum := isalnum_of_isalpha hname.1
    have hkey : step (Args.reading skip) (.reading .leadingSpace, { s with ch := ch }) c =
        (.reading .keyName, { s with
          ch := c, key := Reader.qualify ⟨sect, .lineStart⟩ [narrow c] }) := by
      have hsp := isHSpace_of_isalnum halnum
      have h1 : c ≠ weof := ne_of_test hname.1 (by decide)
      have h2 : c ≠ L '\r' := ne_of_test hname.1 (by decide)
      have h3 : c ≠ L '\n' := ne_of_test hname.1 (by decide)
      have h4 : c ≠ L '#' := ne_of_test hname.1 (by decide)
      have h5 : c ≠ L '[' := ne_of_test hname.1 (by decide)
      change onLeadingSpace (Args.reading skip) { s with ch := c } = _
      simp only [onLeadingSpace, hsp, Bool.false_eq_true, if_false, h1, h2, h3, h4, h5, hname.1,
        Bool.not_true, parseKeyValue, h.key]
      unfold Reader.qualify
      cases sect with
      | nil => rfl
      | cons b sect => simp [State.echo, Args.updateConfigFile, Args.reading]
    obtain ⟨ch', hrest⟩ := scan_alnum skip (s := { s with
      ch := c, key := Reader.qualify ⟨sect, .lineStart⟩ [narrow c] }) .keyName (.inr rfl) hname.2
    have hqualify : Reader.qualify ⟨sect, .lineStart⟩ [narrow c] ++ t.map narrow =
        Reader.qualify ⟨sect, .lineStart⟩ ((c :: t).map narrow) := by
      unfold Reader.qualify
      split <;> simp
    have hequals := scan_equals skip (s := { s with
      ch := ch', key := Reader.qualify ⟨sect, .lineStart⟩ ((c :: t).map narrow) }) before
    obtain ⟨ch'', hafter⟩ := scan_blanks skip (s := { s with
      ch := L '=', key := Reader.qualify ⟨sect, .lineStart⟩ ((c :: t).map narrow) })
      .valueSpace rfl after
    refine ⟨ch'', ?_⟩
    have hsplit : lead.1 ++ c :: t ++ before.1 ++ L '=' :: after.1 =
        lead.1 ++ (c :: (t ++ (before.1 ++ [L '='] ++ after.1))) := by simp
    rw [hsplit, scan_append, hlead, scan_cons, hkey, scan_append, hrest]
    simp only [hqualify]
    rw [scan_append, hequals]
    exact hafter

theorem take_kept (v : Value) :
    (((units v.1).map fun u => narrow u.1).take v.kept.length) = v.kept.map fun u => narrow u.1 := by
  obtain ⟨rest, hrest⟩ := rdropWhile_prefix Piece.isBlank v.1
  have hunits : units v.1 = v.kept ++ units rest := by
    rw [Value.kept, units, units, units, ← flatMap_append, hrest]
  rw [hunits, map_append, take_left']
  simp

def Value.setting (v : Value) (sect name : List UInt8) (n : Nat) : Setting :=
  ⟨cstr (Reader.qualify ⟨sect, .lineStart⟩ name), cstr (v.kept.map fun u => narrow u.1), n + v.breaks⟩

def State.reported (s : State) (v : List UInt8) : State :=
  { s with value := v, settings := s.settings ++ [⟨cstr s.key, cstr v, s.line⟩] }

theorem valueDone_reading (hq : s.inQuote = false) (hf : s.firstMatchedKey = false)
    (hm : s.matchedKey = false) :
    valueDone (Args.reading skip) s =
      newLine (Args.reading skip) (s.reported (resize s.value s.trimmedLength)) := by
  simp [valueDone, State.reported, hq, hf, hm]

theorem closes_value {s' : State} {name : List UInt8} (h : AtLine s sect n settings) (v : Value)
    (hread : Reading { s with key := Reader.qualify ⟨sect, .lineStart⟩ name }.beginning s' v.1)
    (note : Option CommentText) :
    Closes skip (scan (Args.reading skip) (.reading .value, s') (renderNote note)) sect (n + v.breaks)
      (settings ++ [v.setting sect name n]) := by
  obtain ⟨hsame, htrim⟩ := hread
  have hq : s'.inQuote = false := hsame.inQuote
  have hf : s'.firstMatchedKey = false := hsame.first
  have hm : s'.matchedKey = false := hsame.matched
  have heof : s'.eof = false := hsame.eof.trans h.eof
  have htr : s'.trailingComment = false := hsame.trailing.trans h.trailing
  have hkey : s'.key = Reader.qualify ⟨sect, .lineStart⟩ name := hsame.key
  have hlen : s'.sectionLength = sect.length := hsame.length.trans h.length
  have hline : s'.line = n + v.breaks := by
    rw [hsame.line]
    exact congrArg (· + v.breaks) h.line
  have hval : resize s'.value s'.trimmedLength = v.kept.map fun u => narrow u.1 := by
    have hvalue : s'.value = (units v.1).map fun u => narrow u.1 := hsame.value
    have hkept : s'.trimmedLength = v.kept.length := htrim
    obtain ⟨rest, hrest⟩ := rdropWhile_prefix Piece.isBlank v.1
    have hle : v.kept.length ≤ ((units v.1).map fun u => narrow u.1).length := by
      rw [length_map, ← hrest, Value.kept]
      simp [units]
    rw [hvalue, hkept, resize, take_kept, Nat.sub_eq_zero_of_le hle]
    simp
  have hset : (s'.reported (resize s'.value s'.trimmedLength)).settings =
      settings ++ [v.setting sect name n] := by
    have hold : s'.settings = settings := hsame.settings.trans h.settings
    simp only [State.reported, hval, hkey, hline, hold, Value.setting]
  have hk : resize s'.key s'.sectionLength = sect := by
    rw [hkey, hlen]
    exact resize_qualify ⟨sect, .lineStart⟩ name
  cases note with
  | none =>
    constructor
    · have hdone := valueDone_reading skip (s := s'.fetch (L '\n')) hq hf hm
      have hnew := newLine_newline skip
        (s := (s'.fetch (L '\n')).reported (resize s'.value s'.trimmedLength)) rfl heof htr
      have hloop : valueLoop (Args.reading skip) (s'.fetch (L '\n')) =
          valueDone (Args.reading skip) (s'.fetch (L '\n')) := if_pos (.inr (.inl rfl))
      refine ⟨_, hloop.trans (hdone.trans hnew), heof, htr, ?_, hlen, hk, hset⟩
      exact congrArg (· + 1) hline
    · have hdone := valueDone_reading skip (s := { s' with eof := true, ch := weof }) hq hf hm
      have hnew := newLine_weof (a := Args.reading skip)
        (s := State.reported { s' with eof := true, ch := weof } (resize s'.value s'.trimmedLength)) rfl htr
      have hloop : valueLoop (Args.reading skip) { s' with eof := true, ch := weof } =
          valueDone (Args.reading skip) { s' with eof := true, ch := weof } := if_pos (.inl rfl)
      have hread := hloop.trans (hdone.trans (hnew.trans (checkEof_done skip rfl)))
      exact ⟨_, finish_done skip rfl hread, hset⟩
  | some t =>
    have hdone := valueDone_reading skip (s := { s'.fetch (L '#') with trailingComment := true }) hq hf hm
    have hnew := newLine_hash skip
      (s := State.reported { s'.fetch (L '#') with trailingComment := true }
        (resize s'.value s'.trimmedLength)) rfl rfl
    have hloop : valueLoop (Args.reading skip) (s'.fetch (L '#')) =
        valueDone (Args.reading skip) { s'.fetch (L '#') with trailingComment := true } := by
      have hend : ¬ (L '#' = weof ∨ L '#' = L '\n' ∨ L '#' = L '\r') := by decide
      have h1 : L '#' ≠ L '"' := by decide
      have h2 : L '#' ≠ L '\\' := by decide
      have hch : (s'.fetch (L '#')).ch = L '#' := rfl
      have hecho : (s'.fetch (L '#')).echo (Args.reading skip) = s'.fetch (L '#') := rfl
      have hinq : (s'.fetch (L '#')).inQuote = false := hq
      simp only [valueLoop, hecho, ite_self, hch, hend, if_false, h1, h2, hinq, Bool.not_false, and_self,
        if_true]
    have hstep : step (Args.reading skip) (.reading .value, s') (L '#') = (.reading .comment,
        State.reported { s'.fetch (L '#') with trailingComment := true }
          (resize s'.value s'.trimmedLength)) := hloop.trans (hdone.trans hnew)
    rw [renderNote, scan_cons, hstep, ← hline, ← hset]
    exact closes_note skip (s := State.reported { s'.fetch (L '#') with trailingComment := true }
      (resize s'.value s'.trimmedLength)) heof hlen hk

theorem step_begin (s : State) (hc : isHSpace c = false) :
    step (Args.reading skip) (.reading .valueSpace, s) c =
      step (Args.reading skip) (.reading .value, s.beginning) c := by
  have hsp : isHSpace (s.fetch c).ch = false := hc
  have hun : (s.fetch c).unwritten (Args.reading skip) = false := rfl
  have hup : (Args.reading skip).updateConfigFile = false := rfl
  change onValueSpace (Args.reading skip) (s.fetch c) = valueLoop (Args.reading skip) (s.beginning.fetch c)
  simp only [onValueSpace, hsp, Bool.false_eq_true, if_false, beginValue, hun, hup, Bool.false_and]
  rfl

theorem closes_begin (ht : t.head?.all fun c => !isHSpace c)
    (h : Closes skip (scan (Args.reading skip) (.reading .value, s.beginning) t) sect n settings) :
    Closes skip (scan (Args.reading skip) (.reading .valueSpace, s) t) sect n settings := by
  cases t with
  | nil =>
    obtain ⟨⟨s', hstep, hs'⟩, ⟨s'', hfinish, hs''⟩⟩ := h
    refine ⟨⟨s', ?_, hs'⟩, ⟨s'', ?_, hs''⟩⟩
    · exact (step_begin skip s (by decide)).trans hstep
    · have hread : readEof (Args.reading skip) (.reading .valueSpace, s) =
          readEof (Args.reading skip) (.reading .value, s.beginning) :=
        step_begin skip { s with eof := true } (by decide)
      change finish (Args.reading skip) (.reading .valueSpace, s) = _
      rw [finish, hread]
      exact hfinish
  | cons c t =>
    have hc : isHSpace c = false := by simpa using ht
    rw [scan_cons, step_begin skip s hc]
    exact h

theorem head_value (v : Value) (note : Option CommentText) :
    (v.render ++ renderNote note).head?.all fun c => !isHSpace c := by
  obtain ⟨ps, hvalid, hblank⟩ := v
  have hhash : isHSpace (L '#') = false := by decide
  have hback : isHSpace (L '\\') = false := by decide
  have hquote : isHSpace (L '"') = false := by decide
  cases ps with
  | nil => cases note <;> simp [Value.render, renderNote, hhash]
  | cons p ps =>
    cases p with
    | bare a =>
      cases a with
      | char c =>
        have hc : isHSpace c = false := by simpa [Piece.isBlank] using hblank
        simp [Value.render, Piece.render, Atom.render, hc]
      | escape e => simp [Value.render, Piece.render, Atom.render, hback]
      | continuation => simp [Value.render, Piece.render, Atom.render, hback]
    | quoted as => simp [Value.render, Piece.render, hquote]

theorem closes_setting (h : AtLine s sect n settings) (lead : Blanks) (name : Name)
    (before after : Blanks) (v : Value) (note : Option CommentText) :
    Closes skip (scan (Args.reading skip) (.reading .leadingSpace, s)
      (lead.1 ++ name.1 ++ before.1 ++ L '=' :: after.1 ++ v.render ++ renderNote note))
      sect (n + v.breaks) (settings ++ [v.setting sect (name.1.map narrow) n]) := by
  obtain ⟨ch, hkey⟩ := scan_key skip h lead name before after
  rw [append_assoc, scan_append, hkey]
  apply closes_begin skip (head_value v note)
  have hstart : Reading
      (State.beginning { s with
        ch := ch, key := Reader.qualify ⟨sect, .lineStart⟩ (name.1.map narrow) })
      (State.beginning { s with
        ch := ch, key := Reader.qualify ⟨sect, .lineStart⟩ (name.1.map narrow) }) [] :=
    ⟨⟨rfl, rfl, rfl, rfl, rfl, rfl, rfl, rfl, rfl, rfl⟩, rfl⟩
  obtain ⟨s', hscan, hread⟩ := scan_pieces skip rfl rfl hstart v.2.1
  have h' : AtLine { s with ch := ch } sect n settings :=
    ⟨h.eof, h.trailing, h.line, h.length, h.key, h.settings⟩
  rw [scan_append, Value.render, hscan]
  exact closes_value skip h' v hread note

def Line.sectionAfter (sect : List UInt8) : Line → List UInt8
  | .header _ name _ _ => name.1.map narrow
  | _ => sect

def Line.breaks : Line → Nat
  | .setting _ _ _ _ value _ => value.breaks
  | _ => 0

def Line.reports (sect : List UInt8) (n : Nat) : Line → List Setting
  | .setting _ name _ _ value _ => [value.setting sect (name.1.map narrow) n]
  | _ => []

theorem closes_line (h : AtLine s sect n settings) (line : Line) :
    Closes skip (scan (Args.reading skip) (.reading .leadingSpace, s) line.render)
      (line.sectionAfter sect) (n + line.breaks) (settings ++ line.reports sect n) := by
  cases line with
  | blank lead =>
    have hnone : settings ++ Line.reports sect n (.blank lead) = settings := append_nil settings
    rw [hnone]
    exact closes_blank skip h lead
  | comment lead text =>
    have hnone : settings ++ Line.reports sect n (.comment lead text) = settings := append_nil settings
    rw [hnone]
    exact closes_commentLine skip h lead text
  | header lead name tail note =>
    have hnone : settings ++ Line.reports sect n (.header lead name tail note) = settings := append_nil settings
    rw [hnone]
    exact closes_header skip h lead name tail note
  | setting lead name before after value note =>
    exact closes_setting skip h lead name before after value note

def reportedBy (sect : List UInt8) (n : Nat) : List Line → List Setting
  | [] => []
  | line :: lines =>
    line.reports sect n ++ reportedBy (line.sectionAfter sect) (n + line.breaks + 1) lines

theorem renderLines_cons_cons (line line' : Line) (lines : List Line) :
    renderLines (line :: line' :: lines) = line.render ++ L '\n' :: renderLines (line' :: lines) := by
  simp [renderLines, List.intercalate]

theorem run_lines (lines : List Line) (h : AtLine s sect n settings) :
    ∃ s', finish (Args.reading skip)
        (scan (Args.reading skip) (.reading .leadingSpace, s) (renderLines lines)) = (.done 0, s') ∧
      s'.settings = settings ++ reportedBy sect n lines := by
  induction lines generalizing s sect n settings with
  | nil =>
    rw [reportedBy, append_nil]
    exact (closes_lineStart skip h).eof
  | cons line lines ih =>
    have hline := closes_line skip h line
    cases lines with
    | nil =>
      obtain ⟨s', hfinish, hs'⟩ := hline.eof
      refine ⟨s', ?_, by rw [hs', reportedBy, reportedBy, append_nil]⟩
      rwa [show renderLines [line] = line.render by simp [renderLines, List.intercalate]]
    | cons line' lines =>
      obtain ⟨s', hstep, hs'⟩ := hline.newline
      obtain ⟨s'', hfinish, hs''⟩ := ih hs'
      refine ⟨s'', ?_, hs''.trans (append_assoc _ _ _)⟩
      rw [renderLines_cons_cons, scan_append, scan_cons, hstep, hfinish]

theorem parse_lines (lines : List Line) :
    (parseConfigFile (Args.reading skip) (renderLines lines)).1 = .done 0 ∧
      (parseConfigFile (Args.reading skip) (renderLines lines)).2.settings = reportedBy [] 1 lines := by
  have hinit := (tracks_newLine (Args.reading skip)).2
  have hstart : AtLine { State.initial with line := 1 } [] 1 [] := ⟨rfl, rfl, rfl, rfl, rfl, rfl⟩
  obtain ⟨s', hfinish, hs'⟩ := run_lines skip lines hstart
  have hrun : parseConfigFile (Args.reading skip) (renderLines lines) = (.done 0, s') := by
    rw [← hfinish, ← hinit]
    rfl
  rw [hrun]
  exact ⟨rfl, hs'⟩

end Lines

section Exact

variable {c : WChar}

theorem widen_narrow : widen [narrow c] = [c] ↔ c < 256 := by
  simp only [widen, narrow, map_cons, map_nil, List.cons.injEq, and_true]
  constructor
  · intro h
    have hnat := congrArg UInt16.toNat h
    simp only [UInt8.toNat_toUInt16, UInt16.toNat_toUInt8] at hnat
    rw [UInt16.lt_iff_toNat_lt]
    simp only [UInt16.reduceToNat]
    omega
  · intro h
    rw [UInt16.lt_iff_toNat_lt] at h
    simp only [UInt16.reduceToNat] at h
    apply UInt16.toNat.inj
    simp only [UInt8.toNat_toUInt16, UInt16.toNat_toUInt8]
    omega

theorem narrow_eq_zero (hc : c < 256) : narrow c = 0 ↔ c = 0 := by
  rw [UInt16.lt_iff_toNat_lt] at hc
  simp only [UInt16.reduceToNat] at hc
  constructor
  · intro h
    have hnat := congrArg UInt8.toNat h
    simp only [narrow, UInt16.toNat_toUInt8, UInt8.reduceToNat] at hnat
    apply UInt16.toNat.inj
    simp only [UInt16.reduceToNat]
    omega
  · rintro rfl
    rfl

theorem widen_cstr {t : List WChar} (ht : ∀ c ∈ t, isByte c = true) : widen (cstr (t.map narrow)) = t := by
  induction t with
  | nil => rfl
  | cons c t ih =>
    have hc := ht c mem_cons_self
    simp only [isByte, Bool.and_eq_true, decide_eq_true_eq] at hc
    have hne : narrow c ≠ 0 := by
      rw [ne_eq, narrow_eq_zero hc.2]
      rintro rfl
      exact absurd hc.1 (by decide)
    have hcons : cstr ((c :: t).map narrow) = narrow c :: cstr (t.map narrow) := by
      simp [cstr, hne]
    have hfirst := widen_narrow.mpr hc.2
    rw [hcons]
    change (narrow c).toUInt16 :: widen (cstr (t.map narrow)) = c :: t
    rw [ih fun d hd => ht d (mem_cons_of_mem c hd)]
    simpa [widen] using hfirst

theorem isByte_of_widen_cstr {t : List WChar} (h : widen (cstr (t.map narrow)) = t) :
    ∀ c ∈ t, isByte c = true := by
  induction t with
  | nil =>
    intro c hc
    cases hc
  | cons d t ih =>
    by_cases hd : narrow d = 0
    · have hnil : cstr ((d :: t).map narrow) = [] := by simp [cstr, hd]
      rw [hnil] at h
      cases h
    · have hcons : cstr ((d :: t).map narrow) = narrow d :: cstr (t.map narrow) := by
        simp [cstr, hd]
      rw [hcons] at h
      obtain ⟨hfirst, hrest⟩ := List.cons.inj h
      have hlt : d < 256 := widen_narrow.mp (by simp [widen, hfirst])
      have hpos : 0 < d := by
        by_contra hn
        have hzero : d = 0 := by
          apply UInt16.toNat.inj
          rw [UInt16.lt_iff_toNat_lt] at hn
          simp only [UInt16.reduceToNat] at hn ⊢
          omega
        exact hd ((narrow_eq_zero hlt).mpr hzero)
      intro c hc
      rcases mem_cons.mp hc with rfl | hc
      · simp [isByte, hpos, hlt]
      · exact ih hrest c hc

/-- Blanks that are kept are too many: they are bytes, so the C string does not end
before them. -/
theorem cstr_too_long {e b : List WChar} (hc : isByte c = true) :
    widen (cstr ((e ++ c :: b).map narrow)) ≠ e := by
  intro h
  have hlen := congrArg List.length h
  simp only [isByte, Bool.and_eq_true, decide_eq_true_eq] at hc
  have hne : narrow c ≠ 0 := by
    rw [ne_eq, narrow_eq_zero hc.2]
    rintro rfl
    exact absurd hc.1 (by decide)
  rw [widen, length_map, map_append, cstr, takeWhile_append] at hlen
  split at hlen
  · simp [hne] at hlen
  · rename_i hshort
    rw [length_map] at hshort
    exact hshort hlen

theorem units_isBlank {ps : List Piece} (h : ∀ p ∈ ps, p.isBlank = true) : ∀ u ∈ units ps, u.2 = true := by
  intro u hu
  obtain ⟨p, hp, hup⟩ := mem_flatMap.mp hu
  have hb := h p hp
  cases p with
  | bare a =>
    cases a with
    | char c =>
      obtain rfl : u = (c, isHSpace c) := by simpa [Piece.units] using hup
      exact hb
    | escape e => cases hb
    | continuation => cases hb
  | quoted as => cases hb

theorem units_blank (ps : List Piece) : ∀ u ∈ units ps, u.2 = true → isByte u.1 = true := by
  intro u hu hb
  obtain ⟨p, -, hup⟩ := mem_flatMap.mp hu
  cases p with
  | bare a =>
    cases a with
    | char c =>
      obtain rfl : u = (c, isHSpace c) := by simpa [Piece.units] using hup
      rcases (isHSpace_iff c).mp hb with rfl | rfl <;> decide
    | escape e =>
      obtain rfl : u = (e.unit, false) := by simpa [Piece.units, Atom.units] using hup
      cases hb
    | continuation => simp [Piece.units, Atom.units] at hup
  | quoted as =>
    obtain ⟨c, -, rfl⟩ := mem_map.mp hup
    cases hb

theorem Value.decoded_eq (v : Value) : v.decoded = (v.kept.rdropWhile Prod.snd).map Prod.fst := by
  have hsplit : v.1 = v.1.rdropWhile Piece.isBlank ++ v.1.rtakeWhile Piece.isBlank := by
    simp [List.rdropWhile, List.rtakeWhile, ← reverse_append, takeWhile_append_dropWhile]
  have hblank : ∀ u ∈ units (v.1.rtakeWhile Piece.isBlank), u.2 = true :=
    units_isBlank fun p hp => mem_rtakeWhile_imp hp
  have hunits : units v.1 = v.kept ++ units (v.1.rtakeWhile Piece.isBlank) := by
    rw [Value.kept, units, units, units, ← flatMap_append, ← hsplit]
  have hdrop : (units v.1).rdropWhile Prod.snd = v.kept.rdropWhile Prod.snd := by
    rw [hunits, List.rdropWhile, List.rdropWhile, reverse_append,
      dropWhile_append_of_pos fun u hu => hblank u (mem_reverse.mp hu)]
  rw [Value.decoded, hdrop]

theorem Value.exact_iff (v : Value) :
    widen (cstr (v.kept.map fun u => narrow u.1)) = v.decoded ↔ v.exact = true := by
  have hmap : (v.kept.map fun u => narrow u.1) = (v.kept.map Prod.fst).map narrow := by simp
  have hexact : v.exact = true ↔
      v.kept.rdropWhile Prod.snd = v.kept ∧ ∀ c ∈ v.kept.map Prod.fst, isByte c = true := by
    rw [rdropWhile_eq_self_iff]
    simp only [Value.exact, Bool.and_eq_true, Bool.not_eq_true', all_eq_true, mem_map,
      forall_exists_index, and_imp, forall_apply_eq_imp_iff₂]
    refine and_congr_left fun _ => ?_
    constructor
    · intro h hne
      rw [getLast?_eq_some_getLast hne] at h
      simpa using h
    · intro h
      cases hk : v.kept with
      | nil => rfl
      | cons u us =>
        have hne : v.kept ≠ [] := by simp [hk]
        have hlast := h hne
        rw [← hk, getLast?_eq_some_getLast hne]
        simpa using hlast
  rw [hexact, hmap, v.decoded_eq]
  constructor
  · intro h
    have hsplit : v.kept = v.kept.rdropWhile Prod.snd ++ v.kept.rtakeWhile Prod.snd := by
      simp [List.rdropWhile, List.rtakeWhile, ← reverse_append, takeWhile_append_dropWhile]
    cases hrest : v.kept.rtakeWhile Prod.snd with
    | nil =>
      rw [hrest, append_nil] at hsplit
      rw [← hsplit] at h
      exact ⟨hsplit.symm, isByte_of_widen_cstr h⟩
    | cons u us =>
      have hu : u ∈ v.kept.rtakeWhile Prod.snd := by simp [hrest]
      have hbyte : isByte u.1 = true := by
        refine units_blank (v.1.rdropWhile Piece.isBlank) u ?_ (mem_rtakeWhile_imp hu)
        change u ∈ v.kept
        rw [hsplit]
        exact mem_append_right _ hu
      rw [hrest] at hsplit
      refine absurd ?_ (cstr_too_long (e := (v.kept.rdropWhile Prod.snd).map Prod.fst)
        (b := us.map Prod.fst) hbyte)
      rw [← map_cons, ← map_append, ← hsplit]
      exact h
  · rintro ⟨hdrop, hbytes⟩
    rw [hdrop]
    exact widen_cstr hbytes

theorem isByte_of_isalnum (h : isalnum c = true) : isByte c = true := by
  simp only [isalnum, isalpha, Bool.or_eq_true, Bool.and_eq_true, decide_eq_true_eq,
    UInt16.le_iff_toNat_le, UInt16.reduceToNat] at h
  simp only [isByte, Bool.and_eq_true, decide_eq_true_eq, UInt16.lt_iff_toNat_lt, UInt16.reduceToNat]
  omega

theorem isByte_name (name : Name) : ∀ c ∈ name.1, isByte c = true := by
  obtain ⟨t, ht⟩ := name
  cases t with
  | nil => cases ht
  | cons d t =>
    simp only [isName, Bool.and_eq_true, all_eq_true] at ht
    intro c hc
    rcases mem_cons.mp hc with rfl | hc
    · exact isByte_of_isalnum (isalnum_of_isalpha ht.1)
    · exact isByte_of_isalnum (ht.2 c hc)

variable {sect : List WChar}

section

variable (hs : ∀ c ∈ sect, isByte c = true)
include hs

theorem widen_qualify (name : Name) :
    widen (cstr (Reader.qualify ⟨sect.map narrow, .lineStart⟩ (name.1.map narrow))) =
      sectionDot sect name.1 := by
  have hname := isByte_name name
  by_cases hnil : sect = []
  · subst hnil
    exact widen_cstr hname
  · have hq : Reader.qualify ⟨sect.map narrow, .lineStart⟩ (name.1.map narrow) =
        (sect ++ L '.' :: name.1).map narrow := by
      simp [Reader.qualify, hnil]
    rw [hq, sectionDot, if_neg hnil]
    apply widen_cstr
    intro c hc
    rcases mem_append.mp hc with hc | hc
    · exact hs c hc
    · rcases mem_cons.mp hc with rfl | hc
      · decide
      · exact hname c hc

theorem report_eq_iff (name : Name) (v : Value) (n : Nat) :
    (v.setting (sect.map narrow) (name.1.map narrow) n).report =
      ⟨sectionDot sect name.1, v.decoded, n + v.breaks⟩ ↔ v.exact = true := by
  rw [Setting.report, Value.setting, widen_qualify hs name, ← v.exact_iff]
  simp

theorem reportedBy_iff (n : Nat) (lines : List Line) :
    (reportedBy (sect.map narrow) n lines).map Setting.report = expected sect n lines ↔
      ∀ line ∈ lines, line.exact = true := by
  induction lines generalizing sect n with
  | nil => simp [reportedBy, expected]
  | cons line lines ih =>
    rw [forall_mem_cons]
    cases line with
    | blank lead =>
      refine (ih hs (n + 1)).trans ?_
      simp [Line.exact]
    | comment lead text =>
      refine (ih hs (n + 1)).trans ?_
      simp [Line.exact]
    | header lead name tail note =>
      refine (ih (isByte_name name) (n + 1)).trans ?_
      simp [Line.exact]
    | setting lead name before after value note =>
      have hrest := ih hs (n + value.breaks + 1)
      have hfirst := report_eq_iff hs name value n
      change _ :: _ = _ :: _ ↔ _
      rw [List.cons.injEq]
      exact and_congr hfirst hrest

end

/-- The lines of the grammar are parsed as they are meant exactly when every value is. -/
theorem parsedExactly_iff (skip : Bool) (lines : List Line) :
    ParsedExactly skip lines ↔ ∀ line ∈ lines, line.exact = true := by
  obtain ⟨hdone, hset⟩ := parse_lines skip lines
  rw [ParsedExactly, hset]
  have hnil : ∀ c ∈ ([] : List WChar), isByte c = true := fun c hc => nomatch hc
  refine Iff.trans ⟨fun h => h.2, fun h => ⟨hdone, h⟩⟩ ?_
  exact reportedBy_iff hnil 1 lines

/-- `a=1`, two blanks and a continuation before the last line. -/
def continuedBlanks : Line :=
  .setting ⟨[], rfl⟩ ⟨[L 'a'], by decide⟩ ⟨[], rfl⟩ ⟨[], rfl⟩
    ⟨[.bare (.char (L '1')), .bare (.char (L ' ')), .bare (.char (L ' ')), .bare .continuation],
      by decide⟩ none

/-- The blanks before the continuation end the value and are still reported. -/
theorem parse_continuedBlanks :
    ¬ ParsedExactly false [continuedBlanks] ∧
      (parseConfigFile (Args.reading false) (renderLines [continuedBlanks])).2.settings.map
        Setting.report = [⟨[L 'a'], [L '1', L ' ', L ' '], 2⟩] ∧
      expected [] 1 [continuedBlanks] = [⟨[L 'a'], [L '1'], 2⟩] := by
  have hread : (parseConfigFile (Args.reading false) (renderLines [continuedBlanks])).2.settings.map
      Setting.report = [⟨[L 'a'], [L '1', L ' ', L ' '], 2⟩] := by rfl
  have hexpected : expected [] 1 [continuedBlanks] = [⟨[L 'a'], [L '1'], 2⟩] := by rfl
  refine ⟨?_, hread, hexpected⟩
  rintro ⟨-, h⟩
  rw [hread, hexpected] at h
  exact absurd h (by decide)

end Exact

end WslPlus.ConfigFile
