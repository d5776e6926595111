import WslPlus.ConfigFile.Rewrite

/-!
# Writing a setting

Update mode copies the text up to the place where the setting goes: the value
of the first matching key, the end of a matching section before the next
header, or the end of the file. The text written there reads back when the
copy has not lost its place and the section that matched by prefix is the
right one.
-/

namespace WslPlus.ConfigFile

open List Reader

variable {k : ConfigKey} {r r' : Reader} {c : WChar} {x y : Status × State} {s s' : State} {text : List WChar}

def Args.write (k : ConfigKey) : Args :=
  { skipInvalidLines := true, hasFile := true, outputKey := some k, removeKey := false }

def update (k : ConfigKey) (text : List WChar) : List WChar :=
  (parseConfigFile (Args.write k) text).2.configFileOutput

def Reader.atKey (k : ConfigKey) (r : Reader) (c : WChar) : Bool :=
  match r.phase with
  | .valueSpace name => !isHSpace c && k.matches (cstr (r.qualify name))
  | _ => false

def inSection (k : ConfigKey) (sect : List UInt8) : Bool :=
  sect != [] && k.matchesLength (cstr sect) sect.length

def Reader.atHeader (k : ConfigKey) (r : Reader) (c : WChar) : Bool :=
  r.phase == .lineStart && c == L '[' && inSection k r.sect

inductive Place where
  | replace
  | insert
  | append

def Reader.place (k : ConfigKey) (r : Reader) : List WChar → Place × List WChar × List WChar
  | [] => (if r.atKey k weof then .replace else .append, [], [])
  | c :: text =>
    if r.atKey k c then (.replace, [], c :: text)
    else if r.atHeader k c then (.insert, [], c :: text)
    else
      let (place, before, rest) := (r.next c).place k text
      (place, c :: before, rest)

def Reader.away (k : ConfigKey) (r : Reader) : List WChar → Prop
  | [] => True
  | c :: text => r.atKey k c = false ∧ r.atHeader k c = false ∧ (r.next c).away k text

def Reader.atPlace (k : ConfigKey) (r : Reader) : Place → List WChar → Prop
  | .replace, rest => r.atKey k (rest.headD weof) = true
  | .insert, rest => r.atHeader k (L '[') = true ∧ ∃ more, rest = L '[' :: more
  | .append, rest => r.atKey k weof = false ∧ rest = []

theorem place_spec {place : Place} {before rest : List WChar} (h : r.place k text = (place, before, rest)) :
    text = before ++ rest ∧ r.away k before ∧ (r.after before).atPlace k place rest := by
  induction text generalizing r place before rest with
  | nil =>
    simp only [Reader.place, Prod.mk.injEq] at h
    obtain ⟨rfl, rfl, rfl⟩ := h
    refine ⟨rfl, trivial, ?_⟩
    split
    · rename_i hk
      exact hk
    · rename_i hk
      exact ⟨by simpa using hk, rfl⟩
  | cons c text ih =>
    rw [Reader.place] at h
    split at h
    · rename_i hk
      simp only [Prod.mk.injEq] at h
      obtain ⟨rfl, rfl, rfl⟩ := h
      exact ⟨rfl, trivial, hk⟩
    rename_i hk
    split at h
    · rename_i hh
      simp only [Prod.mk.injEq] at h
      obtain ⟨rfl, rfl, rfl⟩ := h
      have hc : c = L '[' := by
        simp only [Reader.atHeader, Bool.and_eq_true, beq_iff_eq] at hh
        exact hh.1.2
      subst hc
      exact ⟨rfl, trivial, hh, text, rfl⟩
    rename_i hh
    simp only [Prod.mk.injEq] at h
    obtain ⟨rfl, rfl, rfl⟩ := h
    obtain ⟨h1, h2, h3⟩ := ih (r := r.next c) rfl
    refine ⟨?_, ⟨by simpa using hk, by simpa using hh, h2⟩, h3⟩
    rw [cons_append, ← h1]

theorem cstr_append_zeros (l : List UInt8) (n : Nat) : cstr (l ++ List.replicate n 0) = cstr l := by
  induction l with
  | nil => cases n <;> simp [cstr, replicate_succ]
  | cons b l ih =>
    simp only [cstr] at ih
    by_cases hb : b = 0 <;> simp [cstr, hb, ih]

theorem cstr_take (l : List UInt8) (n : Nat) : cstr (l.take n) = (cstr l).take n := by
  induction l generalizing n with
  | nil => simp [cstr]
  | cons b l ih =>
    simp only [cstr] at ih
    cases n with
    | zero => rfl
    | succ n => by_cases hb : b = 0 <;> simp [cstr, hb, ih]

theorem strncasecmp_take (n : Nat) (e b : List UInt8) : strncasecmp n e (b.take n) = strncasecmp n e b := by
  induction n generalizing e b with
  | zero => rfl
  | succ n ih => cases e <;> cases b <;> simp [strncasecmp, ih]

theorem matchesLength_resize {key sect : List UInt8} {n : Nat} (h : resize key n = sect) :
    k.matchesLength (cstr key) n = k.matchesLength (cstr sect) n := by
  have hcstr : (cstr sect).take n = (cstr key).take n := by
    rw [← h, resize, cstr_append_zeros, cstr_take, take_take, Nat.min_self]
  unfold ConfigKey.matchesLength
  congr 1
  funext e
  rw [← strncasecmp_take, ← hcstr, strncasecmp_take]

theorem insertBeforeSection_eq (hl : s.sectionLength = r.sect.length)
    (hr : resize s.key s.sectionLength = r.sect) :
    insertBeforeSection (Args.write k) s =
      if !s.outputKeyValueUpdated && inSection k r.sect then
        k.front.map fun (_, keyName) => { s with
          configFileOutput := trimNewlines s.configFileOutput ++ L '\n' :: keyName ++
            L '=' :: k.value ++ [L '\n', L '\n'],
          outputKeyValueUpdated := true }
      else some s := by
  have hsect : (decide (s.sectionLength > 0) && k.matchesLength (cstr s.key) s.sectionLength) =
      inSection k r.sect := by
    rw [matchesLength_resize hr, hl, inSection]
    cases hs : r.sect <;> simp
  have hcond : (s.unwritten (Args.write k) && s.sectionLength > 0) =
      (!s.outputKeyValueUpdated && decide (s.sectionLength > 0)) := by
    simp [State.unwritten, Args.write, Args.updateConfigFile]
  unfold insertBeforeSection
  rw [hcond, ← hsect]
  simp only [Args.write]
  cases hu : s.outputKeyValueUpdated <;> cases hp : decide (s.sectionLength > 0) <;>
    cases hm : k.matchesLength (cstr s.key) s.sectionLength <;>
    simp [trimNewlines, List.rdropWhile]

theorem unwritten_write (k : ConfigKey) (s : State) :
    s.unwritten (Args.write k) = !s.outputKeyValueUpdated := by
  simp [State.unwritten, Args.write, Args.updateConfigFile]

theorem atKey_eq {name : List UInt8} {st : Status} (ht : Tracks (st, s) r)
    (hp : r.phase = .valueSpace name) (hsp : isHSpace c = false) : s.isKey (Args.write k) = r.atKey k c := by
  obtain ⟨sect, phase⟩ := r
  simp only at hp
  subst hp
  obtain ⟨-, -, -, hk⟩ := ht
  simp only at hk
  simp [State.isKey, Args.write, atKey, hsp, hk]

theorem quiet_write {st : Status} (ht : Tracks (st, s) r) (he : s.eof = false)
    (hc : c ≠ L '\r') (hw : c ≠ weof) (hcut : r.cutOff c = false)
    (ha : s.outputKeyValueUpdated = true ∨ (r.atKey k c = false ∧ r.atHeader k c = false)) :
    Quiet (Args.write k) s r c where
  skip := rfl
  eof := he
  noReturn := hc
  whole := fun _ => ⟨hw, hcut⟩
  noInsert := by
    rintro hp rfl
    have hl : (s.fetch (L '[')).sectionLength = r.sect.length := ht.1
    have hr : resize (s.fetch (L '[')).key (s.fetch (L '[')).sectionLength = r.sect := by
      obtain ⟨sect, phase⟩ := r
      simp only at hp
      subst hp
      exact ht.2.2.2
    rw [insertBeforeSection_eq hl hr]
    have hcond : (!(s.fetch (L '[')).outputKeyValueUpdated && inSection k r.sect) = false := by
      rcases ha with hu | ⟨-, hh⟩
      · have hu' : (s.fetch (L '[')).outputKeyValueUpdated = true := hu
        simp [hu']
      · have hs : inSection k r.sect = false := by simpa [atHeader, hp] using hh
        simp [hs]
    simp [hcond]
  noMatch := by
    intro name hp hsp
    rw [unwritten_write]
    refine ⟨?_, by simp [Args.write]⟩
    rcases ha with hu | ⟨hk, -⟩
    · simp [hu]
    · simp [atKey_eq ht hp hsp, hk]

theorem written_write (hm : s.matchedKey = false) :
    written (Args.write k) s r c = if r.quotedHash c then [] else [c] := by
  unfold written
  cases hq : r.quotedHash c <;> simp [hm, Args.write, Args.updateConfigFile]

/-- The machine between two writes: it tracks the reader and has not matched. -/
structure Copying (x : Status × State) (r : Reader) : Prop where
  tracks : Tracks x r
  eof : x.2.eof = false
  matched : x.2.matchedKey = false

theorem scan_copying (hx : Copying x r) (hw : r.whole text = true)
    (ha : x.2.outputKeyValueUpdated = true ∨ r.away k text) :
    Copying (scan (Args.write k) x text) (r.after text) ∧
      (scan (Args.write k) x text).2.outputKeyValueUpdated = x.2.outputKeyValueUpdated ∧
      (scan (Args.write k) x text).2.configFileOutput = x.2.configFileOutput ++ r.copied text := by
  induction text generalizing x r with
  | nil => exact ⟨hx, rfl, by simp [scan, copied]⟩
  | cons c text ih =>
    simp only [whole, Bool.and_eq_true, bne_iff_ne, Bool.not_eq_true'] at hw
    obtain ⟨⟨⟨hcr, heof⟩, hcut⟩, hw⟩ := hw
    have hhere : x.2.outputKeyValueUpdated = true ∨
        (r.atKey k c = false ∧ r.atHeader k c = false) :=
      ha.imp id fun h => ⟨h.1, h.2.1⟩
    have hf : Follows (Args.write k) x.2 r c (step (Args.write k) x c) :=
      step_follows (quiet_write hx.tracks hx.eof hcr heof hcut hhere) hx.tracks
    have hm : (step (Args.write k) x c).2.matchedKey = false := by
      cases hm : (step (Args.write k) x c).2.matchedKey with
      | false => rfl
      | true => exact absurd (hf.matched hm) (by simp [hx.matched])
    have hrest : (step (Args.write k) x c).2.outputKeyValueUpdated = true ∨
        (r.next c).away k text := by
      rw [hf.updated]
      exact ha.imp id fun h => h.2.2
    obtain ⟨h1, h2, h3⟩ := ih ⟨hf.tracks, hf.eof, hm⟩ hw hrest
    refine ⟨h1, h2.trans hf.updated, ?_⟩
    change (scan (Args.write k) (step (Args.write k) x c) text).2.configFileOutput = _
    rw [h3, hf.output, written_write hx.matched]
    simp [copied]

theorem copying_start (a : Args) : Copying (newLine a State.initial) start := by
  obtain ⟨ht, heq⟩ := tracks_newLine a
  exact ⟨ht, by rw [heq]; rfl, by rw [heq]; rfl⟩

section Replace

/-- The machine inside the value that is being replaced: nothing is written. -/
structure Replacing (s : State) (sect : List UInt8) (inQuote : Bool) (out : List WChar) : Prop where
  length : s.sectionLength = sect.length
  key : resize s.key s.sectionLength = sect
  quote : s.inQuote = inQuote
  first : s.firstMatchedKey = true
  matched : s.matchedKey = false
  trimmed : s.trimmedLength ≤ s.value.length
  blanks : (widen (s.value.drop s.trimmedLength)).all isHSpace = true
  output : s.configFileOutput = out

/-- What is left of a text once the old value has been passed over: nothing, or
the newline or `#` that ended it. A malformed escape does not end it. -/
def oldValue (inQuote escaped : Bool) : List WChar → List WChar
  | [] => []
  | c :: text =>
    if escaped then oldValue inQuote false text
    else if c = L '\n' ∨ (c = L '#' ∧ !inQuote) then c :: text
    else if c = L '"' then oldValue (!inQuote) false text
    else oldValue inQuote (c == L '\\') text

def oldBlanks (inQuote escaped : Bool) (blanks : List WChar) : List WChar → List WChar
  | [] => if escaped then [] else blanks
  | c :: text =>
    if escaped then oldBlanks inQuote false [] text
    else if c = L '\n' ∨ (c = L '#' ∧ !inQuote) then blanks
    else if c = L '"' then oldBlanks (!inQuote) false [] text
    else if c = L '\\' then oldBlanks inQuote true blanks text
    else oldBlanks inQuote false (if isHSpace c then blanks ++ [c] else []) text

theorem oldBlanks_all {inQuote escaped : Bool} {blanks : List WChar} (hb : blanks.all isHSpace = true)
    (text : List WChar) : (oldBlanks inQuote escaped blanks text).all isHSpace = true := by
  induction text generalizing inQuote escaped blanks with
  | nil =>
    rw [oldBlanks]
    split
    · rfl
    · exact hb
  | cons c text ih =>
    rw [oldBlanks]
    split
    · exact ih rfl
    split
    · exact hb
    split
    · exact ih rfl
    split
    · exact ih hb
    · apply ih
      split
      · rename_i hsp
        simp [hb, hsp]
      · rfl

def State.trailing (s : State) : List WChar := widen (s.value.drop s.trimmedLength)

variable {sect : List UInt8} {inQuote escaped : Bool} {out : List WChar}

def oldSite (escaped : Bool) : Status := .reading (if escaped then .escape else .value)

section

variable (h : Replacing s sect inQuote out)
include h

theorem Replacing.fetch (c : WChar) :
    Replacing (s.fetch c) sect inQuote out :=
  ⟨h.length, h.key, h.quote, h.first, h.matched, h.trimmed, h.blanks, h.output⟩

theorem valueDone_replacing :
    ∃ y, valueDone (Args.write k) s = newLine (Args.write k) y ∧
      y.ch = s.ch ∧ y.eof = s.eof ∧ y.sectionLength = s.sectionLength ∧ y.key = s.key ∧
      y.trailingComment = s.trailingComment ∧ y.matchedKey = false ∧
      y.outputKeyValueUpdated = true ∧ y.configFileOutput = out ++ k.value ++ s.trailing := by
  have hq := h.quote
  refine ⟨{ (if s.inQuote then s.warn (.expected "\"" s.line) else s).put (k.value ++ s.trailing)
      with outputKeyValueUpdated := true }, ?_⟩
  cases inQuote <;>
    simp [valueDone, hq, h.first, h.matched, State.warn, State.put, Args.write, h.output,
      State.trailing]

theorem valueNext_replacing (hsp : isHSpace s.ch = false)
    (value : List UInt8) : ∃ y, valueNext { s with value := value } = (.reading .value, y) ∧
      Replacing y sect inQuote out ∧ y.eof = s.eof ∧ y.trailingComment = s.trailingComment ∧
      y.trailing = [] := by
  refine ⟨{ s with value := value, trimmedLength := value.length }, ?_, ?_, rfl, rfl, ?_⟩
  · simp [valueNext, hsp]
  · refine ⟨h.length, h.key, h.quote, h.first, h.matched, ?_, ?_, h.output⟩
    · simp
    · simp [widen]
  · simp [State.trailing, widen]

theorem step_replacing (hch : escaped = true → s.ch = L '\\')
    (hcr : c ≠ L '\r') (heof : c ≠ weof) (hgo : escaped = true ∨ ¬ (c = L '\n' ∨ (c = L '#' ∧ !inQuote))) :
    ∃ y inQuote' escaped', step (Args.write k) (oldSite escaped, s) c = (oldSite escaped', y) ∧
      (escaped' = true → y.ch = L '\\') ∧ Replacing y sect inQuote' out ∧ y.eof = s.eof ∧
      y.trailingComment = s.trailingComment ∧
      ∀ text, oldValue inQuote escaped (c :: text) = oldValue inQuote' escaped' text ∧
        oldBlanks inQuote escaped s.trailing (c :: text) =
          oldBlanks inQuote' escaped' y.trailing text := by
  cases escaped with
  | true =>
    have hch := hch rfl
    have hsp : isHSpace s.ch = false := by rw [hch]; decide
    have hecho : s.escapeEcho (Args.write k) c = [] := by simp [State.escapeEcho, h.first]
    have hput : s.put [] = s := by simp [State.put]
    change ∃ y inQuote' escaped', onEscape (Args.write k) s c = (oldSite escaped', y) ∧ _
    cases he : escapeText c with
    | some bs =>
      obtain ⟨n, heq⟩ := onEscape_some (a := Args.write k) hch hcr he
      rw [hecho, hput] at heq
      refine ⟨_, inQuote, false, heq, by simp, ?_, rfl, rfl, ?_⟩
      · refine ⟨h.length, h.key, h.quote, h.first, h.matched, ?_, ?_, h.output⟩
        · simp
        · simp [widen]
      · intro text
        simp [oldValue, oldBlanks, State.trailing, widen]
    | none =>
      have heq := onEscape_none (a := Args.write k) (s := s) hcr he
      rw [hecho, hput, h.first, if_pos rfl] at heq
      obtain ⟨y, hy, hr, hey, hty, htr⟩ := valueNext_replacing (s := s.warn (.invalidEscape c s.line))
        ⟨h.length, h.key, h.quote, h.first, h.matched, h.trimmed, h.blanks, h.output⟩
        hsp s.value
      refine ⟨y, inQuote, false, heq.trans hy, by simp, hr, hey, hty, ?_⟩
      intro text
      simp [oldValue, oldBlanks, htr]
  | false =>
    have hend : ¬ (c = L '\n' ∨ (c = L '#' ∧ !inQuote)) := by simpa using hgo
    have hnl : c ≠ L '\n' := fun hx => hend (.inl hx)
    have hhash : ¬ (c = L '#' ∧ !inQuote) := fun hx => hend (.inr hx)
    have hold : ∀ text, oldValue inQuote false (c :: text) = if c = L '"' then
        oldValue (!inQuote) false text else oldValue inQuote (c == L '\\') text := by
      intro text
      rw [oldValue, if_neg (by simp), if_neg hend]
    have hblanks : ∀ text, oldBlanks inQuote false s.trailing (c :: text) =
        if c = L '"' then oldBlanks (!inQuote) false [] text
        else if c = L '\\' then oldBlanks inQuote true s.trailing text
        else oldBlanks inQuote false (if isHSpace c then s.trailing ++ [c] else []) text := by
      intro text
      rw [oldBlanks, if_neg (by simp), if_neg hend]
    have hfirst := h.first
    have hquote := h.quote
    change ∃ y inQuote' escaped', valueLoop (Args.write k) (s.fetch c) = (oldSite escaped', y) ∧ _
    by_cases hq : c = L '"'
    · subst hq
      have heq : valueLoop (Args.write k) (s.fetch (L '"')) = (.reading .value,
          { s.fetch (L '"') with inQuote := !inQuote, trimmedLength := s.value.length }) := by
        have hsp : isHSpace (L '"') = false := by decide
        simp [valueLoop, valueNext, State.fetch, hcr, heof, hnl, hfirst, hquote, hsp]
      refine ⟨_, !inQuote, false, heq, by simp, ?_, rfl, rfl, ?_⟩
      · exact ⟨h.length, h.key, rfl, h.first, h.matched, Nat.le_refl _,
          by simp [widen, State.fetch], h.output⟩
      · intro text
        refine ⟨by simpa using hold text, ?_⟩
        rw [hblanks, if_pos rfl]
        simp [State.trailing, State.fetch, widen]
    by_cases hs : c = L '\\'
    · subst hs
      have heq : valueLoop (Args.write k) (s.fetch (L '\\')) =
          (.reading .escape, s.fetch (L '\\')) := by
        simp [valueLoop, State.fetch, hcr, heof, hnl, hfirst, hq]
      refine ⟨_, inQuote, true, heq, fun _ => rfl, h.fetch _, rfl, rfl, ?_⟩
      intro text
      refine ⟨by simpa [hq] using hold text, ?_⟩
      rw [hblanks, if_neg hq, if_pos rfl]
      rfl
    have heq : valueLoop (Args.write k) (s.fetch c) = valueNext ((s.fetch c).push (narrow c)) := by
      simp only [valueLoop, State.fetch, hcr, heof, hnl, hfirst, hquote]
      simp only [Bool.not_eq_true'] at hhash
      simp [hhash, hq, hs]
    replace hold : ∀ text, oldValue inQuote false (c :: text) = oldValue inQuote false text := by
      have hs' : (c == L '\\') = false := by simpa using hs
      simpa [hq, hs'] using hold
    simp only [if_neg hq, if_neg hs] at hblanks
    rw [heq]
    by_cases hsp : isHSpace c = true
    · have hwide : (narrow c).toUInt16 = c := by
        rcases (isHSpace_iff c).mp hsp with rfl | rfl <;> decide
      have htr : ((s.fetch c).push (narrow c)).trailing = s.trailing ++ [c] := by
        simp only [State.trailing, State.push, State.fetch, drop_append_of_le_length h.trimmed,
          widen, map_append, map_singleton, hwide]
      refine ⟨(s.fetch c).push (narrow c), inQuote, false, ?_, by simp, ?_, rfl, rfl, fun text =>
        ⟨hold text, by rw [hblanks, if_pos hsp, htr]⟩⟩
      · have hsp' : isHSpace ((s.fetch c).push (narrow c)).ch = true := hsp
        simp [valueNext, hsp', oldSite]
      · refine ⟨h.length, h.key, h.quote, h.first, h.matched, ?_, ?_, h.output⟩
        · have := h.trimmed
          simp only [State.push, State.fetch, length_append, length_singleton]
          omega
        · have hb := h.blanks
          change (State.trailing ((s.fetch c).push (narrow c))).all isHSpace = true
          rw [htr, all_append, State.trailing, hb]
          simp [hsp]
    · obtain ⟨y, hy, hr, hey, hty, htr⟩ := valueNext_replacing (h.fetch c)
        ((Bool.not_eq_true _).mp hsp) (s.value ++ [narrow c])
      exact ⟨y, inQuote, false, hy, by simp, hr, hey, hty, fun text =>
        ⟨hold text, by rw [hblanks, if_neg hsp, htr]⟩⟩

end

theorem checkEof_updated (he : s.eof = true) (hu : s.outputKeyValueUpdated = true) :
    checkEof (Args.write k) s = (.done 0, s) := by
  simp [checkEof, he, unwritten_write, hu]

section

variable (h : Replacing s sect inQuote out)
include h

theorem readEof_replacing (htc : s.trailingComment = false) :
    ∃ y, readEof (Args.write k) (.reading .value, s) = checkEof (Args.write k) y ∧
      y.eof = true ∧ y.outputKeyValueUpdated = true ∧
      y.configFileOutput = out ++ k.value ++ s.trailing := by
  have h' : Replacing { s with eof := true, ch := weof } sect inQuote out :=
    ⟨h.length, h.key, h.quote, h.first, h.matched, h.trimmed, h.blanks, h.output⟩
  obtain ⟨y, hdone, hch, he, -, -, ht, -, hu, ho⟩ := valueDone_replacing (k := k) h'
  refine ⟨{ y with line := y.line + 1 }, ?_, he, hu, ho⟩
  have hloop : valueLoop (Args.write k) { s with eof := true, ch := weof } =
      valueDone (Args.write k) { s with eof := true, ch := weof } := by simp [valueLoop]
  exact hloop.trans (hdone.trans (newLine_weof hch (ht.trans htc)))

theorem done_replacing (htc : s.trailingComment = false) (he : s.eof = false)
    (hc : c = L '\n' ∨ (c = L '#' ∧ !inQuote)) :
    ∃ y, step (Args.write k) (oldSite false, s) c = y ∧
      Copying y ⟨sect, if c = L '#' then .comment else .lineStart⟩ ∧
      y.2.outputKeyValueUpdated = true ∧
      y.2.configFileOutput = out ++ k.value ++ s.trailing ++ [c] := by
  have hfirst := h.first
  have hquote := h.quote
  rcases hc with rfl | ⟨rfl, hq⟩
  · obtain ⟨y, hdone, hch, hey, hl, hk, ht, hm, hu, ho⟩ :=
      valueDone_replacing (k := k) (h.fetch (L '\n'))
    have hloop : valueLoop (Args.write k) (s.fetch (L '\n')) =
        valueDone (Args.write k) (s.fetch (L '\n')) := by simp [valueLoop, State.fetch]
    have hnew : newLine (Args.write k) y = (.reading .leadingSpace,
        ({ y with line := y.line + 1 }).put [L '\n']) := by
      have hch' : y.ch = L '\n' := hch
      have ht' : y.trailingComment = false := ht.trans htc
      have he' : y.eof = false := hey.trans he
      rw [newLine_of_not_trailing ht', newLineLoop, flush_eq]
      simp only [hch', ht', checkEof, State.put, he']
      rfl
    refine ⟨_, hloop.trans (hdone.trans hnew), ?_, hu, ?_⟩
    · exact ⟨⟨hl.trans h.length, rfl, ht.trans htc, by
        change resize y.key y.sectionLength = _
        rw [hk, hl]
        exact h.key⟩, hey.trans he, hm⟩
    · change y.configFileOutput ++ [L '\n'] = _
      rw [ho]
      rfl
  · have h' : Replacing { s.fetch (L '#') with trailingComment := true } sect inQuote out :=
      ⟨h.length, h.key, h.quote, h.first, h.matched, h.trimmed, h.blanks, h.output⟩
    obtain ⟨y, hdone, hch, hey, hl, hk, ht, hm, hu, ho⟩ := valueDone_replacing (k := k) h'
    have h1 : L '#' ≠ weof ∧ L '#' ≠ L '\n' ∧ L '#' ≠ L '\r' := by decide
    have h2 : L '#' ≠ L '"' ∧ L '#' ≠ L '\\' := by decide
    have hloop : valueLoop (Args.write k) (s.fetch (L '#')) =
        valueDone (Args.write k) { s.fetch (L '#') with trailingComment := true } := by
      simp only [Bool.not_eq_true'] at hq
      simp [valueLoop, State.fetch, h1, h2, hquote, hq]
    have hnew : newLine (Args.write k) y = (.reading .comment, y.put [L '#']) := by
      have hch' : y.ch = L '#' := hch
      have ht' : y.trailingComment = true := ht
      have hzero : (L '#' != 0 && L '#' != weof) = true := by decide
      have hflush : y.flush (Args.write k) = y.put [L '#'] := by
        rw [flush_eq, hch', ht', hm]
        simp [Args.updateConfigFile, Args.write, hzero]
      have hput : (y.put [L '#']).ch = L '#' := hch
      simp [newLine, ht', newLineLoop, hflush, hput]
    refine ⟨_, hloop.trans (hdone.trans hnew), ?_, hu, ?_⟩
    · exact ⟨⟨hl.trans h.length, rfl, by
        change resize y.key y.sectionLength = _
        rw [hk, hl]
        exact h.key⟩, hey.trans he, hm⟩
    · change y.configFileOutput ++ [L '#'] = _
      rw [ho]
      rfl

theorem scan_replacing (hch : escaped = true → s.ch = L '\\')
    (htc : s.trailingComment = false) (he : s.eof = false) (hcr : L '\r' ∉ text) (hw : weof ∉ text) :
    (oldValue inQuote escaped text = [] ∧ ∃ y, finish (Args.write k)
        (scan (Args.write k) (oldSite escaped, s) text) = (.done 0, y) ∧
        y.configFileOutput = out ++ k.value ++ oldBlanks inQuote escaped s.trailing text) ∨
      ∃ d rest y, oldValue inQuote escaped text = d :: rest ∧ (d = L '\n' ∨ d = L '#') ∧
        scan (Args.write k) (oldSite escaped, s) text = scan (Args.write k) y rest ∧
        Copying y ⟨sect, if d = L '#' then .comment else .lineStart⟩ ∧
        y.2.outputKeyValueUpdated = true ∧
        y.2.configFileOutput =
          out ++ k.value ++ oldBlanks inQuote escaped s.trailing text ++ [d] := by
  induction text generalizing s inQuote escaped with
  | nil =>
    cases escaped with
    | false =>
      obtain ⟨y, hread, hey, hu, ho⟩ := readEof_replacing (k := k) h htc
      refine .inl ⟨rfl, y, ?_, ho⟩
      rw [← checkEof_updated hey hu]
      exact finish_of_readEof hey hread
    | true =>
      -- the escape takes one read past the end, the value another
      have h' : Replacing (({ s with eof := true }).warn (.invalidEscape weof s.line)) sect inQuote out :=
        ⟨h.length, h.key, h.quote, h.first, h.matched, h.trimmed, h.blanks, h.output⟩
      have hsp : isHSpace s.ch = false := by rw [hch rfl]; decide
      obtain ⟨z, hz, hrz, -, htz, htr⟩ := valueNext_replacing h' hsp s.value
      have hesc : readEof (Args.write k) (.reading .escape, s) = (.reading .value, z) := by
        have hecho : State.escapeEcho (Args.write k) { s with eof := true } weof = [] := by
          simp [State.escapeEcho]
        have hput : State.put { s with eof := true } [] = { s with eof := true } := by
          simp [State.put]
        have heq := onEscape_none (a := Args.write k) (s := { s with eof := true }) (c := weof)
          (by decide) (by decide)
        have hf : State.firstMatchedKey { s with eof := true } = true := h.first
        rw [hecho, hput, if_pos hf] at heq
        exact heq.trans hz
      obtain ⟨y, hread, hey, hu, ho⟩ := readEof_replacing (k := k) hrz (htz.trans htc)
      rw [htr] at ho
      refine .inl ⟨rfl, y, ?_, ho⟩
      rw [← checkEof_updated hey hu]
      refine finish_of_readEof_readEof hey ?_
      change readEof _ (readEof _ (.reading .escape, s)) = _
      rw [hesc, hread]
  | cons c text ih =>
    have hcr' : c ≠ L '\r' := fun hx => hcr (hx ▸ mem_cons_self)
    have hw' : c ≠ weof := fun hx => hw (hx ▸ mem_cons_self)
    have hcrs : L '\r' ∉ text := fun hx => hcr (mem_cons_of_mem _ hx)
    have hws : weof ∉ text := fun hx => hw (mem_cons_of_mem _ hx)
    by_cases hgo : escaped = true ∨ ¬ (c = L '\n' ∨ (c = L '#' ∧ !inQuote))
    · obtain ⟨y, q, e, hstep, hchy, hr, hey, hty, hold⟩ := step_replacing (k := k) h hch hcr' hw' hgo
      have hscan : scan (Args.write k) (oldSite escaped, s) (c :: text) =
          scan (Args.write k) (oldSite e, y) text := by
        change scan _ (step _ _ c) text = _
        rw [hstep]
      rw [hscan, (hold text).1, (hold text).2]
      exact ih hr hchy (hty.trans htc) (hey.trans he) hcrs hws
    · obtain ⟨hesc, hc⟩ := not_or.mp hgo
      rw [not_not] at hc
      have hesc : escaped = false := by simpa using hesc
      subst hesc
      obtain ⟨y, hstep, hcopy, hu, ho⟩ := done_replacing (k := k) h htc he hc
      have hold : oldValue inQuote false (c :: text) = c :: text := by
        rw [oldValue, if_neg (by simp), if_pos hc]
      have hblanks : oldBlanks inQuote false s.trailing (c :: text) = s.trailing := by
        rw [oldBlanks, if_neg (by simp), if_pos hc]
      refine .inr ⟨c, text, y, hold, hc.imp id fun hx => hx.1, ?_, hcopy, hu, ?_⟩
      · change scan _ (step _ _ c) text = _
        rw [hstep]
      · rw [hblanks]
        exact ho

end

def State.enter (s : State) : State :=
  { s with firstMatchedKey := true, matchedKey := false, value := [], trimmedLength := 0,
           inQuote := false }

theorem enter_replacing (hx : Copying x r) (hk : r.atKey k c = true) (hu : x.2.outputKeyValueUpdated = false) :
    Replacing x.2.enter r.sect false x.2.configFileOutput ∧ x.2.trailingComment = false ∧
      ∀ eof, step (Args.write k) (x.1, { x.2 with eof := eof }) c =
        step (Args.write k) (.reading .value, { x.2.enter with eof := eof }) c := by
  obtain ⟨st, s⟩ := x
  obtain ⟨sect, phase⟩ := r
  cases phase with
  | valueSpace name =>
    obtain ⟨hl, rfl, htc, hkey⟩ := hx.tracks
    simp only [atKey, Bool.and_eq_true, Bool.not_eq_true'] at hk
    obtain ⟨hsp, hmatch⟩ := hk
    refine ⟨?_, htc, fun eof => ?_⟩
    · refine ⟨hl, ?_, rfl, rfl, rfl, Nat.zero_le _, rfl, rfl⟩
      simp only [State.enter] at hl hkey ⊢
      rw [hl, hkey, resize_qualify]
    · change onValueSpace _ (State.fetch { s with eof := eof } c) =
        valueLoop _ (State.fetch { s.enter with eof := eof } c)
      have hmatch' : k.matches (cstr s.key) = true := by rw [← hmatch]; exact congrArg _ (congrArg _ hkey)
      have hu' : s.outputKeyValueUpdated = false := hu
      simp [onValueSpace, beginValue, State.fetch, State.enter, State.unwritten, Args.write,
        Args.updateConfigFile, hsp, hmatch', hu']
  | _ => exact absurd hk (by simp [atKey])

end Replace

section Insert

theorem step_insert {sectionName keyName : List WChar} (hx : Copying x r)
    (hh : r.atHeader k (L '[') = true) (hu : x.2.outputKeyValueUpdated = false)
    (hf : k.front = some (sectionName, keyName)) :
    Copying (step (Args.write k) x (L '[')) ⟨r.sect, .sectionFirst⟩ ∧
      (step (Args.write k) x (L '[')).2.outputKeyValueUpdated = true ∧
      (step (Args.write k) x (L '[')).2.configFileOutput = trimNewlines x.2.configFileOutput ++
        L '\n' :: keyName ++ L '=' :: k.value ++ [L '\n', L '\n'] ++ [L '['] := by
  obtain ⟨st, s⟩ := x
  obtain ⟨sect, phase⟩ := r
  simp only [atHeader, Bool.and_eq_true, beq_iff_eq] at hh
  obtain ⟨⟨hp, -⟩, hs⟩ := hh
  subst hp
  obtain ⟨hl, rfl, htc, hr⟩ := hx.tracks
  have hins := insertBeforeSection_eq (k := k) (s := s.fetch (L '[')) (r := ⟨sect, .lineStart⟩) hl hr
  have hcond : (!(s.fetch (L '[')).outputKeyValueUpdated && inSection k sect) = true := by
    have hu' : (s.fetch (L '[')).outputKeyValueUpdated = false := hu
    simp [hu', hs]
  simp only [hcond, if_true, hf, Option.map_some] at hins
  have h1 : L '[' ≠ weof ∧ L '[' ≠ L '\r' ∧ L '[' ≠ L '\n' ∧ L '[' ≠ L '#' := by decide
  have hsp : isHSpace (L '[') = false := by decide
  have heq : step (Args.write k) (.reading .leadingSpace, s) (L '[') = (.reading .sectionFirst,
      State.echo (Args.write k) { s.fetch (L '[') with
        configFileOutput := trimNewlines s.configFileOutput ++ L '\n' :: keyName ++
          L '=' :: k.value ++ [L '\n', L '\n'],
        outputKeyValueUpdated := true }) := by
    change onLeadingSpace _ (s.fetch (L '[')) = _
    have hch : (s.fetch (L '[')).ch = L '[' := rfl
    unfold onLeadingSpace
    simp only [hch, hsp, h1, hins, parseSection]
    rfl
  rw [heq]
  refine ⟨⟨⟨hl, rfl, htc, hr⟩, hx.eof, hx.matched⟩, rfl, rfl⟩

end Insert

section Append

theorem checkEof_unwritten {sectionName keyName : List WChar} {sect : List UInt8}
    (he : s.eof = true) (hu : s.outputKeyValueUpdated = false)
    (hl : s.sectionLength = sect.length) (hr : resize s.key s.sectionLength = sect)
    (hf : k.front = some (sectionName, keyName)) :
    ∃ y, checkEof (Args.write k) s = (.done 0, y) ∧
      y.configFileOutput = s.configFileOutput ++ [L '\n'] ++
        (if inSection k sect then [] else L '[' :: sectionName ++ [L ']', L '\n']) ++
        (keyName ++ L '=' :: k.value) := by
  have hsect : (decide (s.sectionLength > 0) && k.matchesLength (cstr s.key) s.sectionLength) =
      inSection k sect := by
    rw [matchesLength_resize hr, hl, inSection]
    cases hs : sect <;> simp
  have hwrite : checkEof (Args.write k) s = writeNewKeyValue (Args.write k) s := by
    simp [checkEof, he, unwritten_write, hu]
  rw [hwrite]
  unfold writeNewKeyValue
  have hfile : (Args.write k).hasFile = true := rfl
  simp only [Args.write, Option.bind_some, hf, Option.map_some, State.put, if_true]
  rw [hsect]
  cases inSection k sect with
  | true => exact ⟨_, rfl, by simp⟩
  | false => exact ⟨_, rfl, by simp⟩

theorem finish_append {sectionName keyName : List WChar} (hx : Copying x r)
    (hk : r.atKey k weof = false) (hu : x.2.outputKeyValueUpdated = false)
    (hf : k.front = some (sectionName, keyName)) :
    ∃ y, finish (Args.write k) x = (.done 0, y) ∧
      y.configFileOutput = x.2.configFileOutput ++ (if r.cutOff weof then [weof] else []) ++
        [L '\n'] ++ (if inSection k (r.next weof).sect then [] else
          L '[' :: sectionName ++ [L ']', L '\n']) ++ (keyName ++ L '=' :: k.value) := by
  have hq : QuietEof (Args.write k) x.2 r := by
    intro name hp
    refine ⟨?_, by simp [Args.write]⟩
    rw [atKey_eq (k := k) (c := weof) hx.tracks hp (by decide), hk, Bool.and_false]
  obtain ⟨z, hz, hends⟩ := finish_follows rfl hq hx.tracks
  obtain ⟨y, hy, ho⟩ := checkEof_unwritten hends.eof (hends.updated.trans hu) hends.length hends.key hf
  refine ⟨y, hz.trans hy, ?_⟩
  rw [ho, hends.output]
  rfl

end Append

section Settled

/-- Once the setting is written the output only grows. -/
structure Steady (s₀ s : State) : Prop where
  updated : s.outputKeyValueUpdated = true
  ch : s.ch ≠ L '\r'
  grows : ∃ w, s.configFileOutput = s₀.configFileOutput ++ w ∧ L '\r' ∉ w

/-- The same between two reads; a value the machine stops in is copied. Only
an escape still looks at the character before it. -/
structure Settled (s₀ : State) (y : Status × State) : Prop where
  updated : y.2.outputKeyValueUpdated = true
  grows : ∃ w, y.2.configFileOutput = s₀.configFileOutput ++ w ∧ L '\r' ∉ w
  site : y.1 ≠ .reading .leadingReturn
  first : y.1 = .reading .value ∨ y.1 = .reading .escape → y.2.firstMatchedKey = false
  ch : y.1 = .reading .escape → y.2.ch ≠ L '\r'

variable {s₀ : State} {a : Args}

theorem Steady.put {w : List WChar} (h : Steady s₀ s) (hw : L '\r' ∉ w) : Steady s₀ (s.put w) := by
  obtain ⟨w', ho, hw'⟩ := h.grows
  exact ⟨h.updated, h.ch, w' ++ w, by simp [State.put, ho], by simp [hw, hw']⟩

theorem Steady.echo (h : Steady s₀ s) : Steady s₀ (s.echo a) := by
  unfold State.echo
  split
  · exact h.put (by simpa using Ne.symm h.ch)
  · exact h

theorem Steady.flush (h : Steady s₀ s) : Steady s₀ (s.flush a) := by
  have hnl : L '\r' ≠ L '\n' := by decide
  have hch := h.ch.symm
  rw [flush_eq]
  refine h.put ?_
  split
  · split <;> simp [hnl, hch]
  · simp

theorem Steady.settled {st : Status} (h : Steady s₀ s) (hsite : st ≠ .reading .leadingReturn)
    (hf : st = .reading .value ∨ st = .reading .escape → s.firstMatchedKey = false) :
    Settled s₀ (st, s) := ⟨h.updated, h.grows, hsite, hf, fun _ => h.ch⟩

theorem Steady.reading {site : Site} (h : Steady s₀ s)
    (hsite : site ≠ .leadingReturn ∧ site ≠ .value ∧ site ≠ .escape) : Settled s₀ (.reading site, s) :=
  h.settled (by simp [hsite.1]) (by simp [hsite.2])

theorem settled_checkEof (h : Steady s₀ s) : Settled s₀ (checkEof (Args.write k) s) := by
  unfold checkEof
  rw [unwritten_write, h.updated]
  split
  · exact h.settled (by simp) (by simp)
  · exact h.reading (by simp)

theorem settled_newLineLoop (h : Steady s₀ s) : Settled s₀ (newLineLoop (Args.write k) s) := by
  unfold newLineLoop
  simp only
  split
  · exact h.flush.reading (by simp)
  · exact settled_checkEof h.flush

theorem settled_newLine (h : Steady s₀ s) : Settled s₀ (newLine (Args.write k) s) := by
  unfold newLine
  split
  · exact settled_newLineLoop h
  · exact settled_newLineLoop ⟨h.updated, h.ch, h.grows⟩

theorem settled_invalidLine (h : Steady s₀ s) : Settled s₀ (invalidLine (Args.write k) s) := by
  unfold invalidLine
  split
  · exact h.settled (by simp) (by simp)
  split
  · exact h.reading (by simp)
  · exact settled_newLine h

theorem settled_rejectCharacter {w : Warning} (h : Steady s₀ s) :
    Settled s₀ (rejectCharacter (Args.write k) s w) := by
  have hw : Steady s₀ (s.warn w) := ⟨h.updated, h.ch, h.grows⟩
  have hp := hw.put (w := [s.ch]) (by simpa using h.ch.symm)
  exact settled_invalidLine ⟨hp.updated, by simp [Args.write, Args.updateConfigFile]; decide, hp.grows⟩

theorem settled_commentEnd (h : Steady s₀ s) : Settled s₀ (commentEnd (Args.write k) s) := by
  have hl : Steady s₀ (if s.ch = L '\n' then { s with line := s.line + 1 } else s) := by
    split <;> exact ⟨h.updated, h.ch, h.grows⟩
  unfold commentEnd
  generalize (if s.ch = L '\n' then { s with line := s.line + 1 } else s) = s' at hl ⊢
  simp only
  split
  · exact hl.reading (by simp)
  · exact settled_checkEof ⟨hl.updated, hl.ch, hl.grows⟩

theorem settled_onComment (h : Steady s₀ s) : Settled s₀ (onComment (Args.write k) s) := by
  have he : Steady s₀ (if s.ch ≠ weof then s.echo (Args.write k) else s) := by
    split
    · exact h.echo
    · exact h
  unfold onComment
  generalize (if s.ch ≠ weof then s.echo (Args.write k) else s) = s' at he ⊢
  simp only
  split
  · exact he.reading (by simp)
  · exact settled_commentEnd he

theorem settled_sections (h : Steady s₀ s) :
    Settled s₀ (onSectionFirst (Args.write k) s) ∧ Settled s₀ (onSectionName (Args.write k) s) ∧
      Settled s₀ (onSectionSpace (Args.write k) s) := by
  have he : Steady s₀ (s.echo (Args.write k)) := h.echo
  refine ⟨?_, ?_, ?_⟩
  · unfold onSectionFirst
    split
    · exact settled_rejectCharacter h
    · exact Steady.reading ⟨he.updated, he.ch, he.grows⟩ (by simp)
  · unfold onSectionName
    split
    · exact Steady.reading ⟨he.updated, he.ch, he.grows⟩ (by simp)
    split
    · exact settled_rejectCharacter h
    · exact he.reading (by simp)
  · unfold onSectionSpace
    split
    · exact he.reading (by simp)
    split
    · exact settled_newLine ⟨h.updated, h.ch, h.grows⟩
    split
    · exact settled_newLine ⟨h.updated, h.ch, h.grows⟩
    · exact settled_rejectCharacter h

theorem settled_onKeySpace (h : Steady s₀ s) : Settled s₀ (onKeySpace (Args.write k) s) := by
  have he : Steady s₀ (s.echo (Args.write k)) := h.echo
  unfold onKeySpace
  split
  · exact he.reading (by simp)
  split
  · exact settled_rejectCharacter h
  · exact he.reading (by simp)

theorem settled_onKeyName (h : Steady s₀ s) : Settled s₀ (onKeyName (Args.write k) s) := by
  have he : Steady s₀ (s.echo (Args.write k)) := h.echo
  unfold onKeyName
  split
  · exact Steady.reading ⟨he.updated, he.ch, he.grows⟩ (by simp)
  · exact settled_onKeySpace h

theorem settled_valueDone (h : Steady s₀ s) (hf : s.firstMatchedKey = false) :
    Settled s₀ (valueDone (Args.write k) s) := by
  have hw : Steady s₀ (if s.inQuote then s.warn (.expected "\"" s.line) else s) := by
    split <;> exact ⟨h.updated, h.ch, h.grows⟩
  have hf' : (if s.inQuote then s.warn (.expected "\"" s.line) else s).firstMatchedKey = false := by
    split <;> exact hf
  unfold valueDone
  generalize (if s.inQuote then s.warn (.expected "\"" s.line) else s) = s' at hw hf' ⊢
  simp only [hf', Bool.false_eq_true, if_false]
  split
  · exact settled_invalidLine hw
  split
  · exact settled_newLine ⟨hw.updated, hw.ch, hw.grows⟩
  · exact settled_newLine hw

theorem settled_valueNext (h : Steady s₀ s) (hf : s.firstMatchedKey = false) : Settled s₀ (valueNext s) := by
  refine Steady.settled ?_ (by simp) fun _ => ?_
  · split <;> exact ⟨h.updated, h.ch, h.grows⟩
  · split <;> exact hf

theorem settled_valueLoop (h : Steady s₀ s) (hf : s.firstMatchedKey = false) :
    Settled s₀ (valueLoop (Args.write k) s) := by
  unfold valueLoop
  split
  · exact settled_valueDone h hf
  -- the state after the character has been copied, if it has
  have h' : Steady s₀ (if !s.firstMatchedKey && !s.matchedKey && s.ch != L '#' then
      s.echo (Args.write k) else s) := by
    split
    · exact h.echo
    · exact h
  have hf' : (if !s.firstMatchedKey && !s.matchedKey && s.ch != L '#' then
      s.echo (Args.write k) else s).firstMatchedKey = false := by
    unfold State.echo
    split
    · split <;> exact hf
    · exact hf
  generalize (if !s.firstMatchedKey && !s.matchedKey && s.ch != L '#' then
      s.echo (Args.write k) else s) = s' at h' hf' ⊢
  simp only
  split
  · exact settled_valueNext ⟨h'.updated, h'.ch, h'.grows⟩ hf'
  split
  · exact h'.settled (by simp) fun _ => hf'
  split
  · exact settled_valueDone ⟨h'.updated, h'.ch, h'.grows⟩ hf'
  · exact settled_valueNext ⟨h'.updated, h'.ch, h'.grows⟩ hf'

theorem settled_onValueSpace (h : Steady s₀ s) : Settled s₀ (onValueSpace (Args.write k) s) := by
  unfold onValueSpace
  split
  · exact Steady.reading h.echo (by simp)
  · have hu : s.unwritten (Args.write k) = false := by rw [unwritten_write, h.updated]; rfl
    refine settled_valueLoop ⟨h.updated, h.ch, ?_⟩ ?_
    · simpa [Args.write] using h.grows
    · simp [hu]

theorem settled_onEscape (h : Steady s₀ s) (hf : s.firstMatchedKey = false) (hc : c ≠ L '\r') :
    Settled s₀ (onEscape (Args.write k) s c) := by
  have hp : Steady s₀ (s.put (s.escapeEcho (Args.write k) c)) := by
    refine h.put ?_
    unfold State.escapeEcho
    split <;> simp [hc.symm]
  have hpf : (s.put (s.escapeEcho (Args.write k) c)).firstMatchedKey = false := hf
  unfold onEscape
  simp only [escapeEcho_eq]
  generalize s.put (s.escapeEcho (Args.write k) c) = s' at hp hpf ⊢
  have hnext : ∀ b, Settled s₀ (valueNext (s'.push b)) := fun b =>
    settled_valueNext ⟨hp.updated, hp.ch, hp.grows⟩ hpf
  split
  · exact hnext _
  split
  · exact hnext _
  split
  · exact hnext _
  split
  · exact hnext _
  split
  · exact settled_valueNext ⟨hp.updated, hp.ch, hp.grows⟩ hpf
  split
  · exact settled_valueNext ⟨hp.updated, hp.ch, hp.grows⟩ hpf
  · exact settled_invalidLine ⟨hp.updated, hp.ch, hp.grows⟩

theorem settled_onInvalidLine (h : Steady s₀ s) : Settled s₀ (onInvalidLine (Args.write k) s) := by
  have he : Steady s₀ (if s.ch ≠ weof ∧ s.ch ≠ L '\n' ∧ s.ch ≠ L '\r' then s.echo (Args.write k)
      else s) := by
    split
    · exact h.echo
    · exact h
  unfold onInvalidLine
  generalize (if s.ch ≠ weof ∧ s.ch ≠ L '\n' ∧ s.ch ≠ L '\r' then s.echo (Args.write k) else s) = s'
    at he ⊢
  simp only
  split
  · exact he.reading (by simp)
  · exact settled_newLine he

theorem settled_onLeadingSpace (h : Steady s₀ s) : Settled s₀ (onLeadingSpace (Args.write k) s) := by
  have hins : insertBeforeSection (Args.write k) s = some s := by
    unfold insertBeforeSection
    rw [unwritten_write, h.updated]
    rfl
  have he : Steady s₀ (s.echo (Args.write k)) := h.echo
  unfold onLeadingSpace
  rw [hins]
  split
  · exact he.reading (by simp)
  split
  · exact settled_newLineLoop h
  split
  · rename_i hcr
    exact absurd hcr h.ch
  split
  · exact settled_newLineLoop ⟨h.updated, h.ch, h.grows⟩
  split
  · exact settled_newLineLoop h
  split
  · exact he.reading (by simp)
  split
  · exact settled_rejectCharacter h
  · exact Steady.reading ⟨he.updated, he.ch, he.grows⟩ (by simp)

section

variable (hx : Settled s₀ x)
include hx

theorem step_settled (hc : c ≠ L '\r') : Settled s₀ (step (Args.write k) x c) := by
  obtain ⟨st, s⟩ := x
  have h : Steady s₀ (s.fetch c) := ⟨hx.updated, hc, hx.grows⟩
  cases st with
  | done n => exact hx
  | failFast => exact hx
  | reading site =>
    cases site with
    | comment => exact settled_onComment h
    | commentReturn => exact settled_commentEnd h
    | leadingSpace => exact settled_onLeadingSpace h
    | leadingReturn => exact absurd rfl hx.site
    | sectionFirst => exact (settled_sections h).1
    | sectionName => exact (settled_sections h).2.1
    | sectionSpace => exact (settled_sections h).2.2
    | keyName => exact settled_onKeyName h
    | keySpace => exact settled_onKeySpace h
    | valueSpace => exact settled_onValueSpace h
    | value => exact settled_valueLoop h (hx.first (.inl rfl))
    | escape => exact settled_onEscape ⟨hx.updated, hx.ch rfl, hx.grows⟩ (hx.first (.inr rfl)) hc
    | invalidLine => exact settled_onInvalidLine h

theorem scan_settled (hcr : L '\r' ∉ text) : Settled s₀ (scan (Args.write k) x text) := by
  induction text generalizing x with
  | nil => exact hx
  | cons c text ih =>
    have hc : c ≠ L '\r' := fun h => hcr (h ▸ mem_cons_self)
    exact ih (step_settled hx hc) fun h => hcr (mem_cons_of_mem _ h)

theorem readEof_settled : Settled s₀ (readEof (Args.write k) x) :=
  step_settled ⟨hx.updated, hx.grows, hx.site, hx.first, hx.ch⟩ (by decide)

theorem finish_settled (hcr : L '\r' ∉ text) :
    ∃ w, (finish (Args.write k) (scan (Args.write k) x text)).2.configFileOutput =
      s₀.configFileOutput ++ w ∧ L '\r' ∉ w :=
  (readEof_settled (readEof_settled (readEof_settled (scan_settled hx hcr)))).grows

end

end Settled

end WslPlus.ConfigFile
