import WslPlus.ConfigFile.Modes

/-!
# Invalid lines

In parse mode every jump to InvalidLine gives a warning, and nothing else does.
A line on which the machine jumps reports no setting. What it leaves behind is the
section buffer: a broken header has overwritten it, while the stored section length
is still that of the header before.
-/

namespace WslPlus.ConfigFile

open List Reader

variable {s : State} {r r' : Reader} {c : WChar} {x : Status × State} {text a l b : List WChar}

def Reader.jumps (r : Reader) (c : WChar) : Bool :=
  match r.phase with
  | .lineStart => !(isHSpace c || isEol c || c == L '#' || c == L '[' || isalpha c)
  | .sectionFirst => !isalpha c
  | .sectionName _ => !(isalnum c || c == L ']')
  | .sectionSpace _ => !(isHSpace c || isEol c || c == L '#')
  | .keyName _ => !(isalnum c || isHSpace c || c == L '=')
  | .keySpace _ => !(isHSpace c || c == L '=')
  | .value _ _ _ inQuote => inQuote && isEol c
  | .escape _ _ _ => (escapeText c).isNone
  | _ => false

def Reader.accepts (r : Reader) : List WChar → Bool
  | [] => !r.jumps weof
  | c :: text => !r.jumps c && (r.next c).accepts text

def Reader.jumpsIn (r : Reader) : List WChar → Bool
  | [] => false
  | c :: text => r.jumps c || (r.next c).jumpsIn text

section Warnings

theorem checkEof_parse (s : State) : (checkEof Args.parse s).2 = s := by
  have hun : s.unwritten Args.parse = false := rfl
  unfold checkEof
  rw [hun]
  split <;> rfl

theorem newLineLoop_parse (s : State) : (newLineLoop Args.parse s).2 = s := by
  unfold newLineLoop
  rw [flush_parse]
  simp only
  split
  · rfl
  · exact checkEof_parse s

theorem newLine_warnings (s : State) : (newLine Args.parse s).2.warnings = s.warnings := by
  unfold newLine
  rw [newLineLoop_parse]
  split <;> rfl

theorem invalidLine_warnings (s : State) : (invalidLine Args.parse s).2.warnings = s.warnings := by
  unfold invalidLine
  split
  · rfl
  split
  · rfl
  · exact newLine_warnings s

theorem rejectCharacter_warnings (s : State) (w : Warning) :
    (rejectCharacter Args.parse s w).2.warnings = s.warnings ++ [w] := by
  unfold rejectCharacter
  exact invalidLine_warnings (s.warn w)

theorem commentEnd_warnings (s : State) : (commentEnd Args.parse s).2.warnings = s.warnings := by
  have hl : (if s.ch = L '\n' then { s with line := s.line + 1 } else s).warnings = s.warnings := by
    split <;> rfl
  unfold commentEnd
  generalize (if s.ch = L '\n' then { s with line := s.line + 1 } else s) = s' at hl ⊢
  simp only
  split
  · exact hl
  · rw [checkEof_parse]
    exact hl

theorem valueNext_warnings (s : State) : (valueNext s).2.warnings = s.warnings := by
  unfold valueNext
  split <;> rfl

def Warns (s : State) (jumps : Bool) (y : Status × State) : Prop :=
  ∃ ws, y.2.warnings = s.warnings ++ ws ∧ (ws = [] ↔ jumps = false)

theorem Warns.none {y : Status × State} (h : y.2.warnings = s.warnings) : Warns s false y :=
  ⟨[], by simpa using h, by simp⟩

theorem Warns.reject (w : Warning) : Warns s true (rejectCharacter Args.parse s w) :=
  ⟨[w], rejectCharacter_warnings s w, by simp⟩

theorem Warns.of_eq {y : Status × State} {jumps : Bool} (h : y.2.warnings = s.warnings)
    (hj : jumps = false) : Warns s jumps y := hj ▸ .none h

theorem warns_lineStart {sect : List UInt8} (hcr : c ≠ L '\r') :
    Warns s (jumps ⟨sect, .lineStart⟩ c) (onLeadingSpace Args.parse (s.fetch c)) := by
  have hch : (s.fetch c).ch = c := rfl
  unfold onLeadingSpace
  simp only [hch, jumps, if_neg hcr]
  split
  · rename_i hsp
    exact .of_eq rfl (by simp [hsp])
  rename_i hsp
  split
  · rename_i he
    refine .of_eq ?_ (by simp [isEol, he])
    rw [newLineLoop_parse]
    rfl
  rename_i he
  split
  · rename_i hn
    refine .of_eq ?_ (by simp [isEol, hn])
    rw [newLineLoop_parse]
    rfl
  rename_i hn
  split
  · rename_i hh
    refine .of_eq ?_ (by simp [hh])
    rw [newLineLoop_parse]
    rfl
  rename_i hh
  split
  · rename_i ho
    exact .of_eq rfl (by simp [ho])
  rename_i ho
  split
  · rename_i ha
    have hj : (!(isHSpace c || isEol c || c == L '#' || c == L '[' || isalpha c)) = true := by
      simp only [Bool.not_eq_true'] at ha
      simp [isEol, hsp, he, hn, hh, ho, ha]
    rw [hj]
    exact .reject _
  · rename_i ha
    exact .of_eq rfl (by simp_all)

theorem warns_section {sect : List UInt8} (name : List UInt8) :
    Warns s (jumps ⟨sect, .sectionFirst⟩ c) (onSectionFirst Args.parse (s.fetch c)) ∧
      Warns s (jumps ⟨sect, .sectionName name⟩ c) (onSectionName Args.parse (s.fetch c)) := by
  have hch : (s.fetch c).ch = c := rfl
  constructor
  · unfold onSectionFirst
    simp only [hch, jumps]
    cases isalpha c with
    | true => exact .none rfl
    | false => exact .reject _
  · unfold onSectionName
    simp only [hch, jumps]
    split
    · rename_i ha
      exact .of_eq rfl (by simp [ha])
    rename_i ha
    split
    · rename_i hb
      have hj : (!(isalnum c || c == L ']')) = true := by simp [ha, hb]
      rw [hj]
      exact .reject _
    · rename_i hb
      exact .of_eq rfl (by simp [not_not.mp hb])

variable {sect name : List UInt8}

theorem warns_sectionSpace (hcr : c ≠ L '\r') :
    Warns s (jumps ⟨sect, .sectionSpace name⟩ c) (onSectionSpace Args.parse (s.fetch c)) := by
  have hch : (s.fetch c).ch = c := rfl
  unfold onSectionSpace
  simp only [hch, jumps]
  split
  · rename_i hsp
    exact .of_eq rfl (by simp [hsp])
  rename_i hsp
  split
  · rename_i he
    have heol : isEol c = true := (isEol_iff c).mpr (by tauto)
    refine .of_eq ?_ (by simp [heol])
    rw [newLine_warnings]
    rfl
  rename_i he
  split
  · rename_i hh
    refine .of_eq ?_ (by simp [hh])
    rw [newLine_warnings]
    rfl
  · rename_i hh
    have heol : isEol c = false := by simp only [not_or] at he; simp [isEol, he]
    have hj : (!(isHSpace c || isEol c || c == L '#')) = true := by simp [hsp, heol, hh]
    rw [hj]
    exact .reject _

theorem warns_keySpace : Warns s (jumps ⟨sect, .keySpace name⟩ c) (onKeySpace Args.parse (s.fetch c)) := by
  have hch : (s.fetch c).ch = c := rfl
  unfold onKeySpace
  simp only [hch, jumps]
  split
  · rename_i hsp
    exact .of_eq rfl (by simp [hsp])
  rename_i hsp
  split
  · rename_i hq
    have hj : (!(isHSpace c || c == L '=')) = true := by simp [hsp, hq]
    rw [hj]
    exact .reject _
  · rename_i hq
    exact .of_eq rfl (by simp [not_not.mp hq])

theorem warns_keyName : Warns s (jumps ⟨sect, .keyName name⟩ c) (onKeyName Args.parse (s.fetch c)) := by
  have hch : (s.fetch c).ch = c := rfl
  unfold onKeyName
  simp only [hch]
  split
  · rename_i ha
    exact .of_eq rfl (by simp [jumps, ha])
  · rename_i ha
    have hj : jumps ⟨sect, .keyName name⟩ c = jumps ⟨sect, .keySpace name⟩ c := by simp [jumps, ha]
    rw [hj]
    exact warns_keySpace

theorem warns_valueDone (hf : s.firstMatchedKey = false) (hm : s.matchedKey = false) :
    Warns s s.inQuote (valueDone Args.parse s) := by
  unfold valueDone
  cases hq : s.inQuote with
  | true =>
    have hf' : (s.warn (.expected "\"" s.line)).firstMatchedKey = false := hf
    have hm' : (s.warn (.expected "\"" s.line)).matchedKey = false := hm
    have hq' : (s.warn (.expected "\"" s.line)).inQuote = true := hq
    refine ⟨[.expected "\"" s.line], ?_, by simp⟩
    simp only [if_true, hf', hm', hq']
    exact invalidLine_warnings _
  | false =>
    refine .none ?_
    simp only [Bool.false_eq_true, if_false, hf, hm, hq]
    exact newLine_warnings _

theorem warns_valueLoop (hf : s.firstMatchedKey = false) (hm : s.matchedKey = false) (hcr : s.ch ≠ L '\r') :
    Warns s (s.inQuote && isEol s.ch) (valueLoop Args.parse s) := by
  unfold valueLoop
  simp only [echo_parse, ite_self]
  split
  · rename_i he
    have heol : isEol s.ch = true := (isEol_iff _).mpr (by tauto)
    rw [heol, Bool.and_true]
    exact warns_valueDone hf hm
  rename_i he
  have hj : (s.inQuote && isEol s.ch) = false := by
    simp only [not_or] at he
    simp [isEol, he]
  split
  · exact .of_eq (valueNext_warnings _) hj
  split
  · exact .of_eq rfl hj
  split
  · rename_i hh
    obtain ⟨ws, h1, h2⟩ := warns_valueDone (s := { s with trailingComment := true }) hf hm
    refine .of_eq ?_ hj
    have hq : s.inQuote = false := by simpa using hh.2
    have hws : ws = [] := h2.mpr hq
    rw [h1, hws, append_nil]
  · exact .of_eq (valueNext_warnings _) hj

theorem warns_escape {sect name value : List UInt8} {inQuote : Bool} (hch : s.ch = L '\\')
    (hf : s.firstMatchedKey = false) (hcr : c ≠ L '\r') :
    Warns s (jumps ⟨sect, .escape name value inQuote⟩ c) (onEscape Args.parse s c) := by
  cases he : escapeText c with
  | some bs =>
    obtain ⟨n, heq⟩ := onEscape_some (a := Args.parse) hch hcr he
    rw [heq]
    exact .of_eq rfl (by simp [jumps, he])
  | none =>
    have heq := onEscape_none (a := Args.parse) (s := s) hcr he
    have hput : s.put (s.escapeEcho Args.parse c) = s := by
      simp [State.escapeEcho, State.put, Args.parse, Args.updateConfigFile]
    rw [hput, hf, if_neg (by simp)] at heq
    have hj : jumps ⟨sect, .escape name value inQuote⟩ c = true := by simp [jumps, he]
    rw [heq, hj]
    exact ⟨[.invalidEscape c s.line], invalidLine_warnings _, by simp⟩

theorem step_warns (ht : Tracks x r) (hcr : c ≠ L '\r') : Warns x.2 (r.jumps c) (step Args.parse x c) := by
  obtain ⟨st, s⟩ := x
  obtain ⟨sect, phase⟩ := r
  cases phase with
  | lineStart =>
    obtain ⟨-, rfl, -⟩ := ht
    exact warns_lineStart hcr
  | comment =>
    obtain ⟨-, rfl, -⟩ := ht
    refine .none ?_
    change (onComment Args.parse (s.fetch c)).2.warnings = _
    unfold onComment
    simp only [echo_parse, ite_self]
    rw [if_neg (by exact hcr), commentEnd_warnings]
    rfl
  | invalid =>
    obtain ⟨-, rfl, -⟩ := ht
    refine .none ?_
    change (onInvalidLine Args.parse (s.fetch c)).2.warnings = _
    unfold onInvalidLine
    simp only [echo_parse, ite_self]
    split
    · rfl
    · rw [newLine_warnings]
      rfl
  | sectionFirst =>
    obtain ⟨-, rfl, -⟩ := ht
    exact (warns_section []).1
  | sectionName name =>
    obtain ⟨-, rfl, -⟩ := ht
    exact (warns_section name).2
  | sectionSpace name =>
    obtain ⟨-, rfl, -⟩ := ht
    exact warns_sectionSpace hcr
  | keyName name =>
    obtain ⟨-, rfl, -⟩ := ht
    exact warns_keyName
  | keySpace name =>
    obtain ⟨-, rfl, -⟩ := ht
    exact warns_keySpace
  | valueSpace name =>
    obtain ⟨-, rfl, -⟩ := ht
    refine .of_eq ?_ rfl
    change (onValueSpace Args.parse (s.fetch c)).2.warnings = _
    unfold onValueSpace
    split
    · rfl
    · rw [beginValue_parse]
      obtain ⟨ws, h1, h2⟩ := warns_valueLoop (s := (s.fetch c).beginning) rfl rfl hcr
      rw [h1, h2.mpr rfl, append_nil]
      rfl
  | value name kept blanks inQuote =>
    obtain ⟨-, rfl, -, -, -, -, hq, hf, hm⟩ := ht
    have hw := warns_valueLoop (s := s.fetch c) hf hm hcr
    have hq' : (s.fetch c).inQuote = inQuote := hq
    rw [hq'] at hw
    exact hw
  | escape name value inQuote =>
    obtain ⟨-, rfl, -, -, -, -, hch, hf, -⟩ := ht
    exact warns_escape hch hf hcr

theorem accepts_eq (r : Reader) (text : List WChar) :
    r.accepts text = (!r.jumpsIn text && !(r.after text).jumps weof) := by
  induction text generalizing r with
  | nil => simp [accepts, jumpsIn]
  | cons c text ih => simp [accepts, jumpsIn, ih, Bool.and_assoc]

theorem jumpsIn_append (r : Reader) (t u : List WChar) :
    r.jumpsIn (t ++ u) = (r.jumpsIn t || (r.after t).jumpsIn u) := by
  induction t generalizing r with
  | nil => simp [jumpsIn]
  | cons c t ih => simp [jumpsIn, ih, Bool.or_assoc]

theorem accepts_append {t u : List WChar} (h : r.accepts (t ++ u) = true) :
    r.jumpsIn t = false ∧ (r.after t).accepts u = true := by
  rw [accepts_eq, jumpsIn_append, after_append] at h
  simp only [Bool.and_eq_true, Bool.not_eq_true', Bool.or_eq_false_iff] at h
  refine ⟨h.1.1, ?_⟩
  rw [accepts_eq, h.1.2, h.2]
  rfl

theorem jumps_of_cutOff (h : r.cutOff c = true) : r.jumps c = true := by
  have hc : isEol c = true → isalpha c = false ∧ isalnum c = false ∧ isHSpace c = false ∧
      c ≠ L ']' ∧ c ≠ L '=' := by
    intro heol
    rcases (isEol_iff c).mp heol with rfl | rfl <;> decide
  obtain ⟨sect, phase⟩ := r
  cases phase with
  | sectionFirst => simp [jumps, hc h]
  | sectionName name => simp [jumps, hc h]
  | keyName name => simp [jumps, hc h]
  | keySpace name => simp [jumps, hc h]
  | _ => exact absurd h (by simp [cutOff])

theorem cutOff_of_jumps (hj : r.jumps c = false) : r.cutOff c = false := by
  cases hcut : r.cutOff c with
  | false => rfl
  | true => rw [← hj, jumps_of_cutOff hcut]

theorem whole_of_jumpsIn (hj : r.jumpsIn text = false) (hcr : L '\r' ∉ text) (hw : weof ∉ text) :
    r.whole text = true := by
  induction text generalizing r with
  | nil => rfl
  | cons c text ih =>
    simp only [jumpsIn, Bool.or_eq_false_iff] at hj
    simp only [mem_cons, not_or] at hcr hw
    have hcut := cutOff_of_jumps hj.1
    simp [whole, Ne.symm hcr.1, Ne.symm hw.1, hcut, ih hj.2 hcr.2 hw.2]

def placeSafe (k : ConfigKey) (text : List WChar) : Bool :=
  let (place, before, _) := start.place k text
  place.safe k before

theorem whole_before {k : ConfigKey} {place : Place} {before rest : List WChar} (hcr : L '\r' ∉ text)
    (hw : weof ∉ text) (hvalid : start.accepts text = true) (hp : start.place k text = (place, before, rest)) :
    start.jumpsIn before = false ∧ start.whole before = true := by
  obtain ⟨rfl, -, -⟩ := place_spec hp
  have hjumps := (accepts_append hvalid).1
  refine ⟨hjumps, whole_of_jumpsIn hjumps ?_ ?_⟩
  · exact fun h => hcr (mem_append_left _ h)
  · exact fun h => hw (mem_append_left _ h)

theorem writeSafe_of_valid {k : ConfigKey} (hcr : L '\r' ∉ text) (hw : weof ∉ text)
    (hvalid : start.accepts text = true) (hplace : placeSafe k text = true) : writeSafe k text = true := by
  rcases hp : start.place k text with ⟨place, before, rest⟩
  obtain ⟨-, hwhole⟩ := whole_before hcr hw hvalid hp
  have hsafe : place.safe k before = true := by
    rw [placeSafe, hp] at hplace
    exact hplace
  rw [writeSafe, hp]
  simp [hw, hwhole, hsafe]

theorem Warns.trans {x y z : Status × State} {j j' : Bool} (h : Warns x.2 j y) (h' : Warns y.2 j' z) :
    Warns x.2 (j || j') z := by
  obtain ⟨ws, h1, h2⟩ := h
  obtain ⟨ws', h1', h2'⟩ := h'
  refine ⟨ws ++ ws', by rw [h1', h1, append_assoc], ?_⟩
  rw [append_eq_nil_iff, h2, h2', Bool.or_eq_false_iff]

theorem scan_warns (text : List WChar) (ht : Tracks x r) (he : x.2.eof = false)
    (hcr : L '\r' ∉ text) : Warns x.2 (r.jumpsIn text) (scan Args.parse x text) := by
  induction text generalizing x r with
  | nil => exact .none rfl
  | cons c text ih =>
    have hc : c ≠ L '\r' := fun h => hcr (h ▸ mem_cons_self)
    have hf : Follows Args.parse x.2 r c (step Args.parse x c) := step_follows (quiet_parse he hc) ht
    have hrest := ih hf.tracks hf.eof fun h => hcr (mem_cons_of_mem _ h)
    exact (step_warns ht hc).trans hrest

theorem warnings_of_ending (h : x.1.ending) : (readEof Args.parse x).2.warnings = x.2.warnings := by
  obtain ⟨st, s⟩ := x
  rcases h with h | h
  · have heq : readEof Args.parse (st, s) = (st, { s with eof := true }) :=
      step_of_stopped (x := (st, { s with eof := true })) h weof
    rw [heq]
  · simp only at h
    subst h
    have heq : readEof Args.parse (.reading .invalidLine, s) =
        newLine Args.parse { s with eof := true, ch := weof } := by
      change onInvalidLine Args.parse { s with eof := true, ch := weof } = _
      simp [onInvalidLine]
    rw [heq, newLine_warnings]

theorem finish_warns (ht : Tracks x r) : Warns x.2 (r.jumps weof) (finish Args.parse x) := by
  have ht' : Tracks (x.1, { x.2 with eof := true }) r := ht
  obtain ⟨ws, h1, h2⟩ := step_warns ht' (by decide : weof ≠ L '\r')
  obtain ⟨site, hsite, hne, hne', hesc⟩ := site_of_tracks ht
  have hend : (readEof Args.parse x).1.ending := by
    apply readEof_ending
    · simpa [hsite] using hne
    · simpa [hsite] using hne'
    · simpa [hsite] using hesc
  have hend' := (readEof_of_ending (a := Args.parse) hend).1
  refine ⟨ws, ?_, h2⟩
  rw [finish, warnings_of_ending hend', warnings_of_ending hend]
  exact h1

theorem warnings_parse (hcr : L '\r' ∉ text) :
    (parseConfigFile Args.parse text).2.warnings = [] ↔ start.accepts text = true := by
  obtain ⟨htr, heq⟩ := tracks_newLine Args.parse
  obtain ⟨h1, -, -⟩ := scan_parse text htr (by rw [heq]; rfl) hcr
  obtain ⟨ws, hws, hiff⟩ := (scan_warns text htr (by rw [heq]; rfl) hcr).trans (finish_warns h1)
  have hempty : (newLine Args.parse State.initial).2.warnings = [] := by rw [heq]; rfl
  have hrun : (parseConfigFile Args.parse text).2.warnings = ws := by
    rw [hempty] at hws
    exact hws
  rw [hrun, hiff, accepts_eq]
  simp

end Warnings

section Lines

def Reader.isLine (r : Reader) : List WChar → Bool
  | [] => !r.inEscape
  | c :: l => !(isEol c && !r.inEscape) && (r.next c).isLine l

def nameOf : List WChar → List UInt8
  | [] => []
  | c :: l => if isalpha c then (c :: l.takeWhile isalnum).map narrow else []

def headerName : List WChar → List UInt8
  | [] => []
  | c :: l => if isHSpace c then headerName l else if c = L '[' then nameOf l else []

def Reader.header (r : Reader) (l : List WChar) : List UInt8 :=
  match r.phase with
  | .lineStart => headerName l
  | .sectionFirst => nameOf l
  | .sectionName name => name ++ (l.takeWhile isalnum).map narrow
  | .sectionSpace name => name
  | _ => []

def Reader.leftBehind (r : Reader) (l : List WChar) : List UInt8 :=
  if r.header l = [] then r.sect else resize (r.header l) r.sect.length

def Reader.named (r : Reader) : Prop :=
  match r.phase with
  | .sectionName name | .sectionSpace name => name ≠ []
  | _ => True

theorem invalid_line (sect : List UInt8) (hl : isLine ⟨sect, .invalid⟩ l = true) :
    Reader.after ⟨sect, .invalid⟩ (l ++ [L '\n']) = ⟨sect, .lineStart⟩ ∧
      Reader.emits ⟨sect, .invalid⟩ (l ++ [L '\n']) = [] := by
  induction l with
  | nil => exact ⟨rfl, rfl⟩
  | cons c l ih =>
    simp only [isLine, Bool.and_eq_true, Bool.not_eq_true'] at hl
    obtain ⟨hc, hl⟩ := hl
    have heol : isEol c = false := by simpa [inEscape] using hc
    have hn : Reader.next ⟨sect, .invalid⟩ c = ⟨sect, .invalid⟩ := by simp [Reader.next, heol]
    rw [hn] at hl
    obtain ⟨h1, h2⟩ := ih hl
    have he : Reader.emit ⟨sect, .invalid⟩ c = [] := emit_of_pending rfl
    simp [hn, he, h1, h2]

theorem next_of_jumps (hj : r.jumps c = true) (hn : r.named) (l : List WChar) :
    r.next c = ⟨r.leftBehind (c :: l), if isEol c && !r.inEscape then .lineStart else .invalid⟩ ∧
      r.emit c = [] := by
  obtain ⟨sect, phase⟩ := r
  cases phase with
  | lineStart =>
    simp only [jumps, Bool.not_eq_true', Bool.or_eq_false_iff, beq_eq_false_iff_ne] at hj
    obtain ⟨⟨⟨⟨hsp, heol⟩, hhash⟩, hopen⟩, halpha⟩ := hj
    refine ⟨?_, emit_of_pending rfl⟩
    simp [Reader.next, leftBehind, header, headerName, hsp, heol, hhash, hopen, halpha]
  | sectionFirst =>
    have halpha : isalpha c = false := by simpa [jumps] using hj
    refine ⟨?_, emit_of_pending rfl⟩
    simp [Reader.next, leftBehind, header, nameOf, halpha, reject, inEscape]
  | sectionName name =>
    simp only [jumps, Bool.not_eq_true', Bool.or_eq_false_iff, beq_eq_false_iff_ne] at hj
    have hne : name ≠ [] := hn
    refine ⟨?_, emit_of_pending rfl⟩
    simp [Reader.next, leftBehind, header, hj.1, hj.2, hne, reject, spoil, inEscape]
  | sectionSpace name =>
    simp only [jumps, Bool.not_eq_true', Bool.or_eq_false_iff, beq_eq_false_iff_ne] at hj
    obtain ⟨⟨hsp, heol⟩, hhash⟩ := hj
    have hne : name ≠ [] := hn
    refine ⟨?_, emit_of_pending rfl⟩
    simp [Reader.next, leftBehind, header, hsp, heol, hhash, hne, reject, spoil]
  | keyName name =>
    simp only [jumps, Bool.not_eq_true', Bool.or_eq_false_iff, beq_eq_false_iff_ne] at hj
    refine ⟨?_, emit_of_pending rfl⟩
    simp [Reader.next, leftBehind, header, hj, reject, inEscape]
  | keySpace name =>
    simp only [jumps, Bool.not_eq_true', Bool.or_eq_false_iff, beq_eq_false_iff_ne] at hj
    refine ⟨?_, emit_of_pending rfl⟩
    simp [Reader.next, leftBehind, header, hj, reject, inEscape]
  | value name kept blanks inQuote =>
    simp only [jumps, Bool.and_eq_true] at hj
    obtain ⟨rfl, heol⟩ := hj
    refine ⟨?_, emit_of_pending rfl⟩
    simp [Reader.next, nextValue, leftBehind, header, heol, inEscape]
  | escape name value inQuote =>
    have hesc : escapeText c = none := by simpa [jumps] using hj
    refine ⟨?_, emit_of_pending rfl⟩
    simp [Reader.next, leftBehind, header, hesc, inEscape]
  | comment => exact absurd hj (by simp [jumps])
  | invalid => exact absurd hj (by simp [jumps])
  | valueSpace name => exact absurd hj (by simp [jumps])

theorem comment_never_jumps (sect : List UInt8) (hl : isLine ⟨sect, .comment⟩ l = true) :
    jumpsIn ⟨sect, .comment⟩ (l ++ [L '\n']) = false := by
  induction l with
  | nil => rfl
  | cons c l ih =>
    simp only [isLine, Bool.and_eq_true, Bool.not_eq_true'] at hl
    obtain ⟨hc, hl⟩ := hl
    have heol : isEol c = false := by simpa [inEscape] using hc
    have hn : Reader.next ⟨sect, .comment⟩ c = ⟨sect, .comment⟩ := by simp [Reader.next, heol]
    rw [hn] at hl
    have hj : jumps ⟨sect, .comment⟩ c = false := rfl
    simp [jumpsIn, hj, hn, ih hl]

theorem nextValue_of_not_ends {name kept blanks : List UInt8} {inQuote : Bool} {p : Phase}
    (heol : isEol c = false) (hp : inQuote = true → pending ⟨r.sect, p⟩ = none) :
    (r.nextValue name kept blanks inQuote c).phase = .comment ∨
      ((r.nextValue name kept blanks inQuote c).sect = r.sect ∧
        (r.nextValue name kept blanks inQuote c).header l = [] ∧
        (r.nextValue name kept blanks inQuote c).named ∧ Reader.emit ⟨r.sect, p⟩ c = []) := by
  have hemit : c ≠ L '#' → Reader.emit ⟨r.sect, p⟩ c = [] := emit_eq_nil heol
  unfold nextValue
  rw [if_neg (by simp [heol])]
  split
  · rename_i hq
    exact .inr ⟨rfl, rfl, trivial, hemit (by rw [hq]; decide)⟩
  split
  · rename_i hs
    exact .inr ⟨rfl, rfl, trivial, hemit (by rw [hs]; decide)⟩
  split
  · exact .inl rfl
  rename_i hhash
  -- a `#` that is left belongs to a quoted value, which reports nothing yet
  have hnil : Reader.emit ⟨r.sect, p⟩ c = [] := by
    by_cases hc : c = L '#'
    · have hq : inQuote = true := by simpa [hc] using hhash
      exact emit_of_pending (hp hq)
    · exact hemit hc
  split
  · exact .inr ⟨rfl, rfl, trivial, hnil⟩
  · exact .inr ⟨rfl, rfl, trivial, hnil⟩

theorem next_of_not_jumps (hj : r.jumps c = false) (hend : (isEol c && !r.inEscape) = false)
    (hn : r.named) (l : List WChar) :
    (r.next c).phase = .comment ∨ ((r.next c).sect = r.sect ∧
      (r.next c).header l = r.header (c :: l) ∧ (r.next c).named ∧ r.emit c = []) := by
  obtain ⟨sect, phase⟩ := r
  cases phase with
  | lineStart =>
    have heol : isEol c = false := by simpa [inEscape] using hend
    have hemit : Reader.emit ⟨sect, .lineStart⟩ c = [] := emit_of_pending rfl
    simp only [Reader.next]
    split
    · rename_i hsp
      exact .inr ⟨rfl, by simp [header, headerName, hsp], trivial, hemit⟩
    rename_i hsp
    rw [if_neg (by simp [heol])]
    split
    · exact .inl rfl
    rename_i hhash
    split
    · rename_i hopen
      refine .inr ⟨rfl, ?_, trivial, hemit⟩
      simp only [header, headerName, if_neg hsp, if_pos hopen]
    rename_i hopen
    split
    · exact .inr ⟨rfl, by simp [header, headerName, hsp, hopen], trivial, hemit⟩
    · rename_i halpha
      exact absurd hj (by simp [jumps, hsp, heol, hhash, hopen, halpha])
  | comment =>
    have heol : isEol c = false := by simpa [inEscape] using hend
    exact .inl (by simp [Reader.next, heol])
  | invalid =>
    have heol : isEol c = false := by simpa [inEscape] using hend
    have hn : Reader.next ⟨sect, .invalid⟩ c = ⟨sect, .invalid⟩ := by simp [Reader.next, heol]
    rw [hn]
    exact .inr ⟨rfl, rfl, trivial, emit_of_pending rfl⟩
  | sectionFirst =>
    have halpha : isalpha c = true := by simpa [jumps] using hj
    have hn : Reader.next ⟨sect, .sectionFirst⟩ c = ⟨sect, .sectionName [narrow c]⟩ := by
      simp [Reader.next, halpha]
    rw [hn]
    exact .inr ⟨rfl, by simp [header, nameOf, halpha], by simp [named], emit_of_pending rfl⟩
  | sectionName name =>
    have hemit : Reader.emit ⟨sect, .sectionName name⟩ c = [] := emit_of_pending rfl
    simp only [Reader.next]
    split
    · rename_i ha
      exact .inr ⟨rfl, by simp [header, ha], by simp [named], hemit⟩
    rename_i ha
    split
    · exact .inr ⟨rfl, by simp [header, ha], hn, hemit⟩
    · rename_i hclose
      exact absurd hj (by simp [jumps, ha, hclose])
  | sectionSpace name =>
    have heol : isEol c = false := by simpa [inEscape] using hend
    simp only [Reader.next]
    split
    · exact .inr ⟨rfl, rfl, hn, emit_of_pending rfl⟩
    rename_i hsp
    rw [if_neg (by simp [heol])]
    split
    · exact .inl rfl
    · rename_i hhash
      exact absurd hj (by simp [jumps, hsp, heol, hhash])
  | keyName name =>
    have hemit : Reader.emit ⟨sect, .keyName name⟩ c = [] := emit_of_pending rfl
    simp only [Reader.next]
    split
    · exact .inr ⟨rfl, rfl, trivial, hemit⟩
    rename_i ha
    split
    · exact .inr ⟨rfl, rfl, trivial, hemit⟩
    rename_i hsp
    split
    · exact .inr ⟨rfl, rfl, trivial, hemit⟩
    · rename_i hq
      exact absurd hj (by simp [jumps, ha, hsp, hq])
  | keySpace name =>
    have hemit : Reader.emit ⟨sect, .keySpace name⟩ c = [] := emit_of_pending rfl
    simp only [Reader.next]
    split
    · exact .inr ⟨rfl, rfl, trivial, hemit⟩
    rename_i hsp
    split
    · exact .inr ⟨rfl, rfl, trivial, hemit⟩
    · rename_i hq
      exact absurd hj (by simp [jumps, hsp, hq])
  | valueSpace name =>
    have heol : isEol c = false := by simpa [inEscape] using hend
    simp only [Reader.next]
    split
    · rename_i hsp
      exact .inr ⟨rfl, rfl, trivial, emit_eq_nil heol (hash_of_isHSpace hsp)⟩
    · exact nextValue_of_not_ends (p := .valueSpace name) heol (by simp)
  | value name kept blanks inQuote =>
    have heol : isEol c = false := by simpa [inEscape] using hend
    exact nextValue_of_not_ends (p := .value name kept blanks inQuote) heol (by rintro rfl; rfl)
  | escape name value inQuote =>
    have hemit : Reader.emit ⟨sect, .escape name value inQuote⟩ c = [] := emit_of_pending rfl
    obtain ⟨text, htext⟩ := Option.isSome_iff_exists.mp (by simpa [jumps] using hj)
    have hnext : Reader.next ⟨sect, .escape name value inQuote⟩ c =
        ⟨sect, .value name (value ++ text) [] inQuote⟩ := by simp [Reader.next, htext]
    rw [hnext]
    exact .inr ⟨rfl, rfl, trivial, hemit⟩

theorem jumping_line (hn : r.named) (hl : r.isLine l = true) (hj : r.jumpsIn (l ++ [L '\n']) = true) :
    r.after (l ++ [L '\n']) = ⟨r.leftBehind l, .lineStart⟩ ∧ r.emits (l ++ [L '\n']) = [] := by
  induction l generalizing r with
  | nil =>
    have hesc : r.inEscape = false := by simpa [isLine] using hl
    have hj' : r.jumps (L '\n') = true := by simpa [jumpsIn] using hj
    have heol : isEol (L '\n') = true := by decide
    have hheader : r.header [L '\n'] = r.header [] := by
      obtain ⟨sect, phase⟩ := r
      cases phase <;> rfl
    obtain ⟨h1, h2⟩ := next_of_jumps hj' hn []
    simp [h1, h2, heol, hesc, leftBehind, hheader]
  | cons c l ih =>
    simp only [isLine, Bool.and_eq_true, Bool.not_eq_true'] at hl
    obtain ⟨hend, hl⟩ := hl
    cases hjc : r.jumps c with
    | true =>
      obtain ⟨h1, h2⟩ := next_of_jumps hjc hn l
      rw [hend] at h1
      rw [h1] at hl
      obtain ⟨h3, h4⟩ := invalid_line _ hl
      rw [cons_append, after_cons, emits_cons, h1, h2]
      exact ⟨h3, h4⟩
    | false =>
      have hrest : (r.next c).jumpsIn (l ++ [L '\n']) = true := by simpa [jumpsIn, hjc] using hj
      rcases next_of_not_jumps hjc hend hn l with hcomment | ⟨hsect, hheader, hnamed, hemit⟩
      · have heta : r.next c = ⟨(r.next c).sect, .comment⟩ := by rw [← hcomment]
        rw [heta] at hl hrest
        rw [comment_never_jumps _ hl] at hrest
        cases hrest
      · obtain ⟨h3, h4⟩ := ih hnamed hl hrest
        have hleft : (r.next c).leftBehind l = r.leftBehind (c :: l) := by
          rw [leftBehind, leftBehind, hheader, hsect]
        rw [cons_append, after_cons, emits_cons, hemit, h3, h4, hleft]
        exact ⟨rfl, rfl⟩

end Lines

section Sections

variable {sect sect' : List UInt8} {p : Phase}

def Padded (sect : List UInt8) : Prop := ∃ name n, sect = name ++ List.replicate n 0 ∧ 0 ∉ name

def Reader.regular (r : Reader) : Prop :=
  Padded r.sect ∧ match r.phase with
    | .sectionName name | .sectionSpace name => 0 ∉ name
    | _ => True

variable {name : List UInt8}

theorem padded_of_not_mem (h : 0 ∉ name) : Padded name :=
  ⟨name, 0, by simp, h⟩

theorem padded_resize (h : 0 ∉ name) (n : Nat) : Padded (resize name n) :=
  ⟨name.take n, n - name.length, rfl, fun hm => h (mem_of_mem_take hm)⟩

theorem narrow_ne_zero (h : isalnum c = true) : 0 ≠ narrow c := by
  intro hn
  have hnat := congrArg UInt8.toNat hn
  simp only [narrow, UInt16.toNat_toUInt8, UInt8.toNat_zero] at hnat
  simp only [isalnum, isalpha, Bool.or_eq_true, Bool.and_eq_true, decide_eq_true_eq,
    UInt16.le_iff_toNat_le, UInt16.reduceToNat] at h
  omega

theorem regular_next (h : r.regular) : (r.next c).regular := by
  obtain ⟨sect, phase⟩ := r
  obtain ⟨hp, hname⟩ := h
  cases phase with
  | sectionFirst =>
    simp only [Reader.next, reject]
    split
    · rename_i ha
      exact ⟨hp, by simpa using narrow_ne_zero (isalnum_of_isalpha ha)⟩
    · split <;> exact ⟨hp, trivial⟩
  | sectionName name =>
    have hz : 0 ∉ name := hname
    simp only [Reader.next, reject, spoil]
    split
    · rename_i ha
      exact ⟨hp, by simpa [hz] using narrow_ne_zero ha⟩
    split
    · exact ⟨hp, hz⟩
    · split <;> exact ⟨padded_resize hz _, trivial⟩
  | sectionSpace name =>
    have hz : 0 ∉ name := hname
    simp only [Reader.next, reject, spoil]
    split
    · exact ⟨hp, hz⟩
    split
    · exact ⟨padded_of_not_mem hz, trivial⟩
    split
    · exact ⟨padded_of_not_mem hz, trivial⟩
    · exact ⟨padded_resize hz _, trivial⟩
  | _ =>
    simp only [Reader.next, nextValue, reject]
    repeat' split
    all_goals exact ⟨hp, trivial⟩

theorem regular_after (h : r.regular) (text : List WChar) : (r.after text).regular := by
  induction text generalizing r with
  | nil => exact h
  | cons c text ih => exact ih (regular_next h)

theorem cstr_padded (hz : 0 ∉ name) (n : Nat) (rest : List UInt8) :
    cstr (name ++ List.replicate n 0 ++ rest) = name ++ if n = 0 then cstr rest else [] := by
  have hname : name.takeWhile (· != 0) = name := by
    rw [takeWhile_eq_self_iff]
    intro b hb
    have hne : b ≠ 0 := fun h => hz (h ▸ hb)
    simpa using hne
  rw [append_assoc, cstr, takeWhile_append_of_pos (takeWhile_eq_self_iff.mp hname)]
  cases n with
  | zero => simp [cstr]
  | succ n => simp [replicate_succ]

theorem cstr_ne_of_sect_ne (h : Padded sect) (h' : Padded sect') (hlen : sect.length = sect'.length)
    (hne : sect ≠ sect') {d : UInt8} (hd : d ≠ 0) (name : List UInt8) :
    cstr (sect ++ d :: name) ≠ cstr (sect' ++ d :: name) := by
  obtain ⟨u, n, rfl, hu⟩ := h
  obtain ⟨u', n', rfl, hu'⟩ := h'
  have hcons : cstr (d :: name) = d :: cstr name := by simp [cstr, hd]
  rw [cstr_padded hu, cstr_padded hu', hcons]
  simp only [length_append, length_replicate] at hlen
  intro heq
  have hsum := congrArg List.length heq
  simp only [length_append] at hsum
  split at heq <;> split at heq
  · rename_i hn hn'
    subst hn hn'
    exact hne (by rw [(append_inj heq hlen).1])
  · rename_i hn hn'
    simp [hn, hn'] at hsum
    omega
  · rename_i hn hn'
    simp [hn, hn'] at hsum
    omega
  · rename_i hn hn'
    simp only [append_nil] at heq
    subst heq
    exact hne (by rw [Nat.add_left_cancel hlen])

def Reader.resets (r : Reader) (c : WChar) : Bool :=
  match r.phase with
  | .sectionName _ => !(isalnum c || c == L ']')
  | .sectionSpace _ => !isHSpace c
  | _ => false

def Reader.silent (r : Reader) : List WChar → Bool
  | [] => r.pending.isNone
  | c :: text => (r.emit c).isEmpty && (r.resets c || (r.next c).silent text)

theorem next_resets (h : resets ⟨sect, p⟩ c = true) (hlen : sect.length = sect'.length) :
    Reader.next ⟨sect, p⟩ c = Reader.next ⟨sect', p⟩ c := by
  cases p with
  | sectionName name =>
    simp only [resets, Bool.not_eq_true', Bool.or_eq_false_iff, beq_eq_false_iff_ne] at h
    simp [Reader.next, h.1, h.2, reject, spoil, hlen]
  | sectionSpace name =>
    have hsp : isHSpace c = false := by simpa [resets] using h
    simp [Reader.next, hsp, reject, spoil, hlen]
  | _ => exact absurd h (by simp [resets])

theorem next_not_resets (h : resets ⟨sect, p⟩ c = false) (sect' : List UInt8) :
    ∃ p', Reader.next ⟨sect, p⟩ c = ⟨sect, p'⟩ ∧ Reader.next ⟨sect', p⟩ c = ⟨sect', p'⟩ := by
  cases p with
  | sectionName name =>
    simp only [resets, Bool.not_eq_false', Bool.or_eq_true, beq_iff_eq] at h
    rcases h with h | rfl
    · exact ⟨.sectionName (name ++ [narrow c]), by simp [Reader.next, h], by simp [Reader.next, h]⟩
    · exact ⟨.sectionSpace name, rfl, rfl⟩
  | sectionSpace name =>
    have hsp : isHSpace c = true := by simpa [resets] using h
    exact ⟨.sectionSpace name, by simp [Reader.next, hsp], by simp [Reader.next, hsp]⟩
  | escape name value inQuote =>
    simp only [Reader.next]
    cases escapeText c with
    | none => exact ⟨_, rfl, rfl⟩
    | some text => exact ⟨_, rfl, rfl⟩
  | _ =>
    simp only [Reader.next, nextValue, reject]
    split_ifs <;> exact ⟨_, rfl, rfl⟩

theorem pending_sect (h : Padded sect) (h' : Padded sect') (hlen : sect.length = sect'.length)
    (hne : sect ≠ sect') (p : Phase) :
    (pending ⟨sect, p⟩ = none ∧ pending ⟨sect', p⟩ = none) ∨
      ∃ x y, x ≠ y ∧ pending ⟨sect, p⟩ = some x ∧ pending ⟨sect', p⟩ = some y := by
  have hs : sect ≠ [] := by
    rintro rfl
    exact hne (length_eq_zero_iff.mp hlen.symm).symm
  have hs' : sect' ≠ [] := by
    rintro rfl
    exact hs (length_eq_zero_iff.mp hlen)
  have hname : ∀ name, cstr (qualify ⟨sect, p⟩ name) ≠ cstr (qualify ⟨sect', p⟩ name) := by
    intro name
    rw [qualify, qualify, if_neg hs, if_neg hs']
    exact cstr_ne_of_sect_ne h h' hlen hne (by decide) name
  cases p with
  | valueSpace name => exact .inr ⟨_, _, fun heq => hname name (congrArg Prod.fst heq), rfl, rfl⟩
  | value name kept blanks inQuote =>
    cases inQuote with
    | true => exact .inl ⟨rfl, rfl⟩
    | false => exact .inr ⟨_, _, fun heq => hname name (congrArg Prod.fst heq), rfl, rfl⟩
  | _ => exact .inl ⟨rfl, rfl⟩

/-- Under another section of the same length a text says the same only if it reports
nothing before its next header. -/
theorem reports_sect (h : Padded sect) (h' : Padded sect') (hlen : sect.length = sect'.length)
    (hne : sect ≠ sect') (p : Phase) (text : List WChar) :
    Reader.reports ⟨sect, p⟩ text = Reader.reports ⟨sect', p⟩ text ↔ silent ⟨sect, p⟩ text = true := by
  induction text generalizing p with
  | nil =>
    rcases pending_sect h h' hlen hne p with ⟨h1, h2⟩ | ⟨x, y, hxy, h1, h2⟩
    · simp [silent, h1, h2]
    · simp [silent, h1, h2, hxy]
  | cons c text ih =>
    have hemit : (Reader.emit ⟨sect, p⟩ c).length = (Reader.emit ⟨sect', p⟩ c).length ∧
        (Reader.emit ⟨sect, p⟩ c = Reader.emit ⟨sect', p⟩ c ↔ Reader.emit ⟨sect, p⟩ c = []) := by
      unfold Reader.emit
      rcases pending_sect h h' hlen hne p with ⟨h1, h2⟩ | ⟨x, y, hxy, h1, h2⟩
      · simp [h1, h2]
      · split <;> simp [h1, h2, hxy]
    have hrest : Reader.reports (Reader.next ⟨sect, p⟩ c) text = Reader.reports (Reader.next ⟨sect', p⟩ c) text ↔
        (resets ⟨sect, p⟩ c || (Reader.next ⟨sect, p⟩ c).silent text) = true := by
      cases hr : resets ⟨sect, p⟩ c with
      | true => simp [next_resets hr hlen]
      | false =>
        obtain ⟨p', h1, h2⟩ := next_not_resets hr sect'
        rw [h1, h2, ih, Bool.false_or]
    rw [reports_cons, reports_cons, silent, Bool.and_eq_true, List.isEmpty_iff, ← hemit.2, ← hrest]
    constructor
    · intro heq
      exact append_inj heq hemit.1
    · rintro ⟨h1, h2⟩
      rw [h1, h2]

end Sections

section Isolation

def parsing (text : List WChar) : Status × State :=
  scan Args.parse (newLine Args.parse State.initial) text

/-- The parser jumps to InvalidLine on the line: each such jump comes with a warning, and
parse mode warns nowhere else. -/
def jumpsOn (a l : List WChar) : Prop :=
  (parsing (a ++ l ++ [L '\n'])).2.warnings ≠ (parsing a).2.warnings

instance (a l : List WChar) : Decidable (jumpsOn a l) := inferInstanceAs (Decidable (_ ≠ _))

def endsLine (a : List WChar) : Prop :=
  a = [] ∨ ∃ a', a = a' ++ [L '\n'] ∧ (start.after a').inEscape = false

theorem after_endsLine (h : endsLine a) : start.after a = ⟨(start.after a).sect, .lineStart⟩ := by
  rcases h with rfl | ⟨a', rfl, hesc⟩
  · rfl
  · rw [after_append, after_cons, after_nil, (next_newline hesc).1]

theorem jumpsIn_of_jumpsOn (hj : jumpsOn a l) (hcr : L '\r' ∉ a ++ l) :
    (start.after a).jumpsIn (l ++ [L '\n']) = true := by
  simp only [mem_append, not_or] at hcr
  obtain ⟨htr, heq⟩ := tracks_newLine Args.parse
  obtain ⟨h1, h2, -⟩ := scan_parse a htr (by rw [heq]; rfl) hcr.1
  have hcr' : L '\r' ∉ l ++ [L '\n'] := by simpa using ⟨hcr.2, by decide⟩
  obtain ⟨ws, hws, hiff⟩ := scan_warns (l ++ [L '\n']) h1 h2 hcr'
  have hscan : parsing (a ++ l ++ [L '\n']) = scan Args.parse (parsing a) (l ++ [L '\n']) := by
    rw [append_assoc]
    exact foldl_append
  by_contra hno
  have hnil : ws = [] := hiff.mpr (by simpa using hno)
  rw [hnil, append_nil] at hws
  exact hj (by rw [hscan]; exact hws)

/-- Skipping an invalid line changes nothing unless it is a header, broken after its first
letter, with settings after it that still belong to the section before. -/
theorem parse_skips_line_iff (ha : endsLine a) (hl : (start.after a).isLine l = true)
    (hj : jumpsOn a l) (hcr : L '\r' ∉ a ++ l ++ b) :
    parse (a ++ l ++ L '\n' :: b) = parse (a ++ b) ↔
      headerName l = [] ∨ resize (headerName l) (start.after a).sect.length = (start.after a).sect ∨
        (start.after a).silent b = true := by
  have hregular : (start.after a).regular := by
    apply regular_after
    exact ⟨padded_of_not_mem (by simp [start]), trivial⟩
  have hjump := jumpsIn_of_jumpsOn hj fun h => hcr (mem_append_left _ h)
  have hline := after_endsLine ha
  generalize hsect : (start.after a).sect = sect at hline ⊢
  rw [hline] at hl hjump hregular ⊢
  obtain ⟨hafter, hemits⟩ := jumping_line (r := ⟨sect, .lineStart⟩) trivial hl hjump
  have hheader : leftBehind ⟨sect, .lineStart⟩ l =
      if headerName l = [] then sect else resize (headerName l) sect.length := rfl
  -- both readings reach `b` at the start of a line, after the same settings
  have htext : a ++ l ++ L '\n' :: b = a ++ ((l ++ [L '\n']) ++ b) := by simp
  have hcr' : L '\r' ∉ a ++ ((l ++ [L '\n']) ++ b) := by
    have hne : L '\r' ≠ L '\n' := by decide
    simpa [hne, and_assoc] using hcr
  have hcr'' : L '\r' ∉ a ++ b := by
    simp only [mem_append, not_or] at hcr ⊢
    exact ⟨hcr.1.1, hcr.2⟩
  rw [htext, parse_eq_reports hcr', parse_eq_reports hcr'', reports_append start a,
    reports_append start a, hline, reports_append, hafter, hemits, nil_append, hheader, append_cancel_left_eq]
  by_cases hname : headerName l = []
  · simp [hname]
  rw [if_neg hname]
  by_cases hsame : resize (headerName l) sect.length = sect
  · simp [hsame]
  have hpad : Padded (resize (headerName l) sect.length) := by
    have hreg := regular_after hregular (l ++ [L '\n'])
    rw [hafter, hheader, if_neg hname] at hreg
    exact hreg.1
  have hlen := resize_length (headerName l) sect.length
  rw [eq_comm, reports_sect hregular.1 hpad hlen.symm (Ne.symm hsame)]
  simp [hname, hsame]

/-- The word that is no setting goes, the settings around it stay. -/
theorem parse_skips_word :
    parse (wide "[wsl2]\n" ++ wide "babyshark" ++ L '\n' :: wide "memory=1\n") =
      parse (wide "[wsl2]\n" ++ wide "memory=1\n") :=
  (parse_skips_line_iff (.inr ⟨wide "[wsl2]", by decide, by decide⟩) (by decide) (by decide)
    (by decide)).mpr (by decide)

/-- A header without its bracket renames the section of the settings after it. -/
theorem parse_keeps_broken_header :
    ¬ ∀ a l b : List WChar, endsLine a → (start.after a).isLine l = true → jumpsOn a l →
      L '\r' ∉ a ++ l ++ b → parse (a ++ l ++ L '\n' :: b) = parse (a ++ b) := by
  intro h
  have hbad := h (wide "[wsl2]\n") (wide "[boot") (wide "memory=1\n")
    (.inr ⟨wide "[wsl2]", by decide, by decide⟩) (by decide) (by decide) (by decide)
  exact absurd hbad (by decide)

end Isolation

end WslPlus.ConfigFile
