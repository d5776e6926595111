import WslPlus.ConfigFile.Remove

/-!
# Update mode beside parse mode

The two modes run the same labels. Removing a key changes the output text, the
settings and `matchedKey`, and clears `ch` at the error sites; what the next line is
read with is the same as long as no error is found at the end of a line.
-/

namespace WslPlus.ConfigFile

open Reader

variable {k : ConfigKey} {p : State} {out : List WChar} {m : Bool} {c ch : WChar} {v : List UInt8}
  {x y : Status × State} {site : Site} {r : Reader}

def withoutKey (k : ConfigKey) (settings : List Setting) : List Setting :=
  settings.filter fun t => !k.matches t.name

def shadow (k : ConfigKey) (p : State) (out : List WChar) (m : Bool) (ch : WChar) (v : List UInt8) : State :=
  { p with
    ch := ch, value := v, matchedKey := m, configFileOutput := out,
    settings := withoutKey k p.settings }

theorem shadow_ch (k : ConfigKey) (p : State) (out : List WChar) (m : Bool) (ch : WChar) (v : List UInt8) :
    (shadow k p out m ch v).ch = ch := rfl

def Site.inValue : Site → Bool
  | .value | .escape => true
  | _ => false

/-- What update mode keeps about the key while it reads a value. -/
structure Shadows (k : ConfigKey) (st : Status) (p u : State) : Prop where
  eq : ∃ out m ch v, u = shadow k p out m ch v
  first : p.firstMatchedKey = false
  unmatched : p.matchedKey = false
  matched : ∀ site, st = .reading site → site.inValue = true →
    u.matchedKey = k.matches (cstr p.key) ∧ u.value = p.value
  escape : st = .reading .escape → u.ch = p.ch

def Beside (k : ConfigKey) (x y : Status × State) : Prop :=
  y.1 = x.1 ∧ Shadows k x.1 x.2 y.2

def State.plain (p : State) : Prop := p.firstMatchedKey = false ∧ p.matchedKey = false

theorem echo_parse (p : State) : p.echo Args.parse = p := rfl

theorem flush_parse (p : State) : p.flush Args.parse = p := rfl

theorem echo_shadow : (shadow k p out m ch v).echo (Args.remove k) = shadow k p (out ++ [ch]) m ch v := rfl

theorem flush_shadow (k : ConfigKey) (p : State) (out : List WChar) (m : Bool) (ch : WChar) (v : List UInt8) :
    ∃ out', (shadow k p out m ch v).flush (Args.remove k) = shadow k p out' m ch v := by
  rw [flush_eq]
  exact ⟨_, rfl⟩

section

variable (hp : p.plain)
include hp

theorem beside_reading (hs : site.inValue = false) :
    Beside k (.reading site, p) (.reading site, shadow k p out m ch v) := by
  refine ⟨rfl, ⟨out, m, ch, v, rfl⟩, hp.1, hp.2, ?_, ?_⟩
  · intro site' h hv
    cases h
    rw [hs] at hv
    cases hv
  · intro h
    cases h
    cases hs

theorem beside_value (hm : m = k.matches (cstr p.key)) :
    Beside k (.reading .value, p) (.reading .value, shadow k p out m ch p.value) := by
  refine ⟨rfl, ⟨out, m, ch, p.value, rfl⟩, hp.1, hp.2, fun _ _ _ => ⟨hm, rfl⟩, ?_⟩
  intro h
  cases h

theorem beside_done (n : Int) : Beside k (.done n, p) (.done n, shadow k p out m ch v) := by
  refine ⟨rfl, ⟨out, m, ch, v, rfl⟩, hp.1, hp.2, ?_, ?_⟩
  · intro site h
    cases h
  · intro h
    cases h

theorem beside_checkEof :
    Beside k (checkEof Args.parse p) (checkEof (Args.remove k) (shadow k p out m ch v)) := by
  have hparse : p.unwritten Args.parse = false := rfl
  cases he : p.eof with
  | true =>
    have hp' : checkEof Args.parse p = (.done 0, p) := by simp [checkEof, he, hparse]
    have hu : checkEof (Args.remove k) (shadow k p out m ch v) = (.done 0, shadow k p out m ch v) :=
      checkEof_remove he
    rw [hp', hu]
    exact beside_done hp 0
  | false =>
    have hp' : checkEof Args.parse p = (.reading .leadingSpace, p) := by simp [checkEof, he]
    have hu : checkEof (Args.remove k) (shadow k p out m ch v) =
        (.reading .leadingSpace, shadow k p out m ch v) := by simp [checkEof, shadow, he]
    rw [hp', hu]
    exact beside_reading hp rfl

theorem beside_newLineLoop :
    Beside k (newLineLoop Args.parse p) (newLineLoop (Args.remove k) (shadow k p out m p.ch v)) := by
  obtain ⟨out', hflush⟩ := flush_shadow k p out m p.ch v
  unfold newLineLoop
  rw [hflush, flush_parse]
  have hch : (shadow k p out' m p.ch v).ch = p.ch := rfl
  simp only [hch]
  by_cases h : p.ch = L '#'
  · rw [if_pos h, if_pos h]
    exact beside_reading hp rfl
  · rw [if_neg h, if_neg h]
    exact beside_checkEof hp

theorem beside_newLine :
    Beside k (newLine Args.parse p) (newLine (Args.remove k) (shadow k p out m p.ch v)) := by
  have ht : (shadow k p out m p.ch v).trailingComment = p.trailingComment := rfl
  unfold newLine
  rw [ht]
  cases p.trailingComment with
  | true => exact beside_newLineLoop hp
  | false =>
    have hp' : State.plain { p with line := p.line + 1 } := hp
    exact beside_newLineLoop hp'

theorem beside_invalidLine :
    Beside k (invalidLine Args.parse p) (invalidLine (Args.remove k) (shadow k p out m p.ch v)) := by
  have hch : (shadow k p out m p.ch v).ch = p.ch := rfl
  unfold invalidLine
  simp only [Args.parse, Args.remove, Bool.not_true, Bool.false_eq_true, if_false, hch]
  by_cases h : p.ch ≠ weof ∧ p.ch ≠ L '\n'
  · rw [if_pos h, if_pos h]
    exact beside_reading hp rfl
  · rw [if_neg h, if_neg h]
    exact beside_newLine hp

theorem beside_reject (w : Warning) (he : isEol p.ch = false) :
    Beside k (rejectCharacter Args.parse p w)
      (rejectCharacter (Args.remove k) (shadow k p out m p.ch v) w) := by
  have hne : p.ch ≠ weof ∧ p.ch ≠ L '\n' := ne_of_not_isEol (by simp [he])
  have hzero : (0 : WChar) ≠ weof ∧ (0 : WChar) ≠ L '\n' := by decide
  have hparse : rejectCharacter Args.parse p w = (.reading .invalidLine, p.warn w) := by
    simp [rejectCharacter, invalidLine, Args.parse, Args.updateConfigFile, State.warn, hne]
  have hremove : rejectCharacter (Args.remove k) (shadow k p out m p.ch v) w =
      (.reading .invalidLine, shadow k (p.warn w) (out ++ [p.ch]) m 0 v) := by
    simp [rejectCharacter, invalidLine, Args.remove, Args.updateConfigFile, State.warn, State.put,
      shadow, hzero]
  rw [hparse, hremove]
  exact beside_reading hp rfl

end

theorem withoutKey_append (k : ConfigKey) (settings : List Setting) (t : Setting) :
    withoutKey k (settings ++ [t]) =
      withoutKey k settings ++ if k.matches t.name then [] else [t] := by
  cases h : k.matches t.name <;> simp [withoutKey, h]

/-- The end of a value. A removed value is not reported, and one that is malformed
ends its line in both modes. -/
theorem beside_valueDone (hp : p.plain) (hm : m = k.matches (cstr p.key))
    (hq : p.inQuote = true → isEol p.ch = true) :
    Beside k (valueDone Args.parse p) (valueDone (Args.remove k) (shadow k p out m p.ch p.value)) := by
  obtain ⟨hf, hu⟩ := hp
  cases hquote : p.inQuote with
  | true =>
    have hp' : (p.warn (.expected "\"" p.line)).plain := ⟨hf, hu⟩
    have hparse : valueDone Args.parse p = invalidLine Args.parse (p.warn (.expected "\"" p.line)) := by
      simp [valueDone, hquote, hf, hu, State.warn]
    cases m with
    | false =>
      have hremove : valueDone (Args.remove k) (shadow k p out false p.ch p.value) =
          invalidLine (Args.remove k)
            (shadow k (p.warn (.expected "\"" p.line)) out false p.ch p.value) := by
        simp [valueDone, shadow, hquote, hf, State.warn]
      rw [hparse, hremove]
      exact beside_invalidLine hp'
    | true =>
      have hend := not_ne_of_isEol (hq hquote)
      have hnew : invalidLine Args.parse (p.warn (.expected "\"" p.line)) =
          newLine Args.parse (p.warn (.expected "\"" p.line)) := by
        simp only [invalidLine, Args.parse, State.warn, Bool.not_true, Bool.false_eq_true, if_false]
        exact if_neg hend
      have hremove : valueDone (Args.remove k) (shadow k p out true p.ch p.value) =
          newLine (Args.remove k)
            (shadow k (p.warn (.expected "\"" p.line)) out true p.ch p.value) := by
        simp [valueDone, shadow, hquote, hf, State.warn]
      rw [hparse, hnew, hremove]
      exact beside_newLine hp'
  | false =>
    have hparse : valueDone Args.parse p = newLine Args.parse { p with
        value := resize p.value p.trimmedLength
        settings := p.settings ++ [⟨cstr p.key, cstr (resize p.value p.trimmedLength), p.line⟩] } := by
      simp [valueDone, hquote, hf, hu]
    have hnew : ∀ v', shadow k { p with
        value := resize p.value p.trimmedLength
        settings := p.settings ++ [⟨cstr p.key, cstr (resize p.value p.trimmedLength), p.line⟩] }
          out m p.ch v' =
        { shadow k p out m p.ch v' with
          settings := withoutKey k p.settings ++ if m then [] else
            [⟨cstr p.key, cstr (resize p.value p.trimmedLength), p.line⟩] } := by
      intro v'
      simp only [shadow, withoutKey_append, hm]
    cases m with
    | false =>
      have hremove : valueDone (Args.remove k) (shadow k p out false p.ch p.value) =
          newLine (Args.remove k) (shadow k { p with
            value := resize p.value p.trimmedLength
            settings := p.settings ++ [⟨cstr p.key, cstr (resize p.value p.trimmedLength), p.line⟩] }
            out false p.ch (resize p.value p.trimmedLength)) := by
        rw [hnew]
        simp [valueDone, shadow, hquote, hf]
      rw [hparse, hremove]
      exact beside_newLine ⟨hf, hu⟩
    | true =>
      have hremove : valueDone (Args.remove k) (shadow k p out true p.ch p.value) =
          newLine (Args.remove k) (shadow k { p with
            value := resize p.value p.trimmedLength
            settings := p.settings ++ [⟨cstr p.key, cstr (resize p.value p.trimmedLength), p.line⟩] }
            out true p.ch p.value) := by
        rw [hnew]
        simp [valueDone, shadow, hquote, hf]
      rw [hparse, hremove]
      exact beside_newLine ⟨hf, hu⟩

theorem beside_valueNext (hp : p.plain) (hm : m = k.matches (cstr p.key)) (hch : ch = p.ch) :
    Beside k (valueNext p) (valueNext (shadow k p out m ch p.value)) := by
  subst hch
  have hsame : (shadow k p out m p.ch p.value).ch = p.ch := rfl
  unfold valueNext
  rw [hsame]
  split
  · exact beside_value hp hm
  · have hp' : State.plain { p with trimmedLength := p.value.length } := hp
    exact beside_value hp' hm

theorem echo_value (k : ConfigKey) (p : State) (out : List WChar) (m : Bool) : ∃ out',
    (if !(shadow k p out m p.ch p.value).firstMatchedKey && !(shadow k p out m p.ch p.value).matchedKey &&
        (shadow k p out m p.ch p.value).ch != L '#'
      then (shadow k p out m p.ch p.value).echo (Args.remove k)
      else shadow k p out m p.ch p.value) = shadow k p out' m p.ch p.value := by
  split
  · exact ⟨_, echo_shadow⟩
  · exact ⟨out, rfl⟩

theorem beside_valueLoop (hp : p.plain) (hm : m = k.matches (cstr p.key)) (hcr : p.ch ≠ L '\r') :
    Beside k (valueLoop Args.parse p) (valueLoop (Args.remove k) (shadow k p out m p.ch p.value)) := by
  have hch : ∀ out', (shadow k p out' m p.ch p.value).ch = p.ch := fun _ => rfl
  obtain ⟨out', hecho⟩ := echo_value k p out m
  unfold valueLoop
  simp only [hecho]
  simp only [hch, echo_parse, ite_self]
  by_cases hend : p.ch = weof ∨ p.ch = L '\n' ∨ p.ch = L '\r'
  · rw [if_pos hend, if_pos hend]
    refine beside_valueDone hp hm fun _ => ?_
    rw [isEol_iff]
    tauto
  rw [if_neg hend, if_neg hend]
  by_cases hquote : p.ch = L '"'
  · rw [if_pos hquote, if_pos hquote]
    have hp' : State.plain { p with inQuote := !p.inQuote } := hp
    exact beside_valueNext hp' hm rfl
  rw [if_neg hquote, if_neg hquote]
  by_cases hback : p.ch = L '\\'
  · rw [if_pos hback, if_pos hback]
    exact ⟨rfl, ⟨_, _, _, _, rfl⟩, hp.1, hp.2, fun _ _ _ => ⟨hm, rfl⟩, fun _ => rfl⟩
  rw [if_neg hback, if_neg hback]
  have hinq : (shadow k p out' m p.ch p.value).inQuote = p.inQuote := rfl
  rw [hinq]
  by_cases hhash : p.ch = L '#' ∧ !p.inQuote
  · rw [if_pos hhash, if_pos hhash]
    have hp' : State.plain { p with trailingComment := true } := hp
    refine beside_valueDone hp' hm fun hq => ?_
    have hq' : p.inQuote = true := hq
    simp [hq'] at hhash
  · rw [if_neg hhash, if_neg hhash]
    have hp' : (p.push (narrow p.ch)).plain := hp
    exact beside_valueNext hp' hm rfl

def State.beginning (p : State) : State :=
  { p with
    firstMatchedKey := false, matchedKey := false, value := [], trimmedLength := 0, inQuote := false }

theorem beginValue_parse (p : State) : beginValue Args.parse p = valueLoop Args.parse p.beginning := by
  have hun : p.unwritten Args.parse = false := rfl
  have hup : Args.parse.updateConfigFile = false := rfl
  simp only [beginValue, hun, hup, Bool.false_and, Bool.false_eq_true, if_false]
  rfl

theorem beginValue_remove (k : ConfigKey) (p : State) (out : List WChar) (m : Bool) (ch : WChar)
    (v : List UInt8) : ∃ out', beginValue (Args.remove k) (shadow k p out m ch v) =
      valueLoop (Args.remove k) (shadow k p.beginning out' (k.matches (cstr p.key)) ch []) := by
  have hun : (shadow k p out m ch v).unwritten (Args.remove k) = false := unwritten_remove k _
  have hup : ((Args.remove k).updateConfigFile && (Args.remove k).removeKey) = true := rfl
  simp only [beginValue, hun, hup, Bool.false_and, Bool.true_and]
  exact ⟨_, rfl⟩

theorem beside_valueSpace (hp : p.plain) (hcr : p.ch ≠ L '\r') :
    Beside k (onValueSpace Args.parse p) (onValueSpace (Args.remove k) (shadow k p out m p.ch v)) := by
  unfold onValueSpace
  rw [shadow_ch]
  split
  · exact beside_reading hp rfl
  · obtain ⟨out', hremove⟩ := beginValue_remove k p out m p.ch v
    have hp' : p.beginning.plain := ⟨rfl, rfl⟩
    rw [beginValue_parse, hremove]
    exact beside_valueLoop hp' rfl hcr

theorem beside_escape (hp : p.plain) (hm : m = k.matches (cstr p.key)) (hcr : c ≠ L '\r') :
    Beside k (onEscape Args.parse p c) (onEscape (Args.remove k) (shadow k p out m p.ch p.value) c) := by
  obtain ⟨hf, hu⟩ := hp
  have hput : ∃ out', (shadow k p out m p.ch p.value).put
      ((shadow k p out m p.ch p.value).escapeEcho (Args.remove k) c) =
        shadow k p out' m p.ch p.value := ⟨_, rfl⟩
  obtain ⟨out', hput⟩ := hput
  have hput' : p.put (p.escapeEcho Args.parse c) = p := by
    have hnil : p.escapeEcho Args.parse c = [] := rfl
    simp [hnil, State.put]
  unfold onEscape
  simp only [escapeEcho_eq]
  rw [hput, hput']
  by_cases h1 : c = L '\\' ∨ c = L '"'
  · rw [if_pos h1, if_pos h1]
    have hp' : (p.push (narrow c)).plain := ⟨hf, hu⟩
    exact beside_valueNext hp' hm rfl
  rw [if_neg h1, if_neg h1]
  by_cases h2 : c = L 'b'
  · rw [if_pos h2, if_pos h2]
    have hp' : (p.push 8).plain := ⟨hf, hu⟩
    exact beside_valueNext hp' hm rfl
  rw [if_neg h2, if_neg h2]
  by_cases h3 : c = L 'n'
  · rw [if_pos h3, if_pos h3]
    have hp' : (p.push 10).plain := ⟨hf, hu⟩
    exact beside_valueNext hp' hm rfl
  rw [if_neg h3, if_neg h3]
  by_cases h4 : c = L 't'
  · rw [if_pos h4, if_pos h4]
    have hp' : (p.push 9).plain := ⟨hf, hu⟩
    exact beside_valueNext hp' hm rfl
  rw [if_neg h4, if_neg h4, if_neg hcr, if_neg hcr]
  by_cases h5 : c = L '\n'
  · rw [if_pos h5, if_pos h5]
    have hp' : State.plain { p with line := p.line + 1 } := ⟨hf, hu⟩
    exact beside_valueNext hp' hm rfl
  rw [if_neg h5, if_neg h5]
  have hp' : (p.warn (.invalidEscape c p.line)).plain := ⟨hf, hu⟩
  have hne : ¬ (p.warn (.invalidEscape c p.line)).firstMatchedKey = true := by simp [hp'.1]
  have hne' : ¬ ((shadow k p out' m p.ch p.value).warn
      (.invalidEscape c (shadow k p out' m p.ch p.value).line)).firstMatchedKey = true := hne
  rw [if_neg hne, if_neg hne']
  exact beside_invalidLine hp'

theorem beside_invalid (hp : p.plain) :
    Beside k (onInvalidLine Args.parse p) (onInvalidLine (Args.remove k) (shadow k p out m p.ch v)) := by
  have hecho : ∃ out', (if p.ch ≠ weof ∧ p.ch ≠ L '\n' ∧ p.ch ≠ L '\r'
      then (shadow k p out m p.ch v).echo (Args.remove k) else shadow k p out m p.ch v) =
        shadow k p out' m p.ch v := by
    split
    · exact ⟨_, rfl⟩
    · exact ⟨_, rfl⟩
  obtain ⟨out', hecho⟩ := hecho
  have hch : ∀ out', (shadow k p out' m p.ch v).ch = p.ch := fun _ => rfl
  unfold onInvalidLine
  simp only [hch out, hecho]
  simp only [hch, echo_parse, ite_self]
  split
  · exact beside_reading hp rfl
  · exact beside_newLine hp

theorem beside_comment (hp : p.plain) (hcr : p.ch ≠ L '\r') :
    Beside k (onComment Args.parse p) (onComment (Args.remove k) (shadow k p out m p.ch v)) := by
  have hecho : ∃ out', (if p.ch ≠ weof then (shadow k p out m p.ch v).echo (Args.remove k)
      else shadow k p out m p.ch v) = shadow k p out' m p.ch v := by
    split
    · exact ⟨_, rfl⟩
    · exact ⟨_, rfl⟩
  obtain ⟨out', hecho⟩ := hecho
  have hch : ∀ out', (shadow k p out' m p.ch v).ch = p.ch := fun _ => rfl
  unfold onComment
  simp only [hch out, hecho]
  simp only [hch, echo_parse, ite_self, if_neg hcr]
  unfold commentEnd
  simp only [hch]
  by_cases hnl : p.ch = L '\n'
  · have hend : ¬ (p.ch ≠ L '\n' ∧ p.ch ≠ weof) := fun h => h.1 hnl
    simp only [if_pos hnl]
    rw [if_neg hend, if_neg hend]
    have hp' : State.plain { p with line := p.line + 1, trailingComment := false } := hp
    exact beside_checkEof hp'
  · simp only [if_neg hnl, hch]
    split
    · exact beside_reading hp rfl
    · have hp' : State.plain { p with trailingComment := false } := hp
      exact beside_checkEof hp'

theorem beside_sectionFirst (hp : p.plain) (he : isEol p.ch = false) :
    Beside k (onSectionFirst Args.parse p) (onSectionFirst (Args.remove k) (shadow k p out m p.ch v)) := by
  unfold onSectionFirst
  rw [shadow_ch]
  split
  · exact beside_reject hp _ he
  · have hp' : State.plain { p with key := [narrow p.ch] } := hp
    exact beside_reading hp' rfl

theorem beside_sectionName (hp : p.plain) (he : isEol p.ch = false) :
    Beside k (onSectionName Args.parse p) (onSectionName (Args.remove k) (shadow k p out m p.ch v)) := by
  unfold onSectionName
  rw [shadow_ch]
  split
  · have hp' : State.plain { p with key := p.key ++ [narrow p.ch] } := hp
    exact beside_reading hp' rfl
  split
  · exact beside_reject hp _ he
  · exact beside_reading hp rfl

theorem beside_sectionSpace (hp : p.plain) :
    Beside k (onSectionSpace Args.parse p) (onSectionSpace (Args.remove k) (shadow k p out m p.ch v)) := by
  unfold onSectionSpace
  rw [shadow_ch]
  by_cases hsp : isHSpace p.ch = true
  · rw [if_pos hsp, if_pos hsp]
    exact beside_reading hp rfl
  rw [if_neg hsp, if_neg hsp]
  by_cases hend : p.ch = weof ∨ p.ch = L '\n' ∨ p.ch = L '\r'
  · rw [if_pos hend, if_pos hend]
    have hp' : State.plain { p with sectionLength := p.key.length } := hp
    exact beside_newLine hp'
  rw [if_neg hend, if_neg hend]
  by_cases hhash : p.ch = L '#'
  · rw [if_pos hhash, if_pos hhash]
    have hp' : State.plain { p with trailingComment := true, sectionLength := p.key.length } := hp
    exact beside_newLine hp'
  rw [if_neg hhash, if_neg hhash]
  refine beside_reject hp _ ?_
  rw [← Bool.not_eq_true, isEol_iff]
  tauto

theorem beside_keySpace (hp : p.plain) (he : isEol p.ch = false) :
    Beside k (onKeySpace Args.parse p) (onKeySpace (Args.remove k) (shadow k p out m p.ch v)) := by
  unfold onKeySpace
  rw [shadow_ch]
  split
  · exact beside_reading hp rfl
  split
  · exact beside_reject hp _ he
  · exact beside_reading hp rfl

theorem beside_keyName (hp : p.plain) (he : isEol p.ch = false) :
    Beside k (onKeyName Args.parse p) (onKeyName (Args.remove k) (shadow k p out m p.ch v)) := by
  unfold onKeyName
  rw [shadow_ch]
  split
  · have hp' : State.plain { p with key := p.key ++ [narrow p.ch] } := hp
    exact beside_reading hp' rfl
  · exact beside_keySpace hp he

theorem beside_leadingSpace (hp : p.plain) (hcr : p.ch ≠ L '\r') :
    Beside k (onLeadingSpace Args.parse p) (onLeadingSpace (Args.remove k) (shadow k p out m p.ch v)) := by
  have hinsert : insertBeforeSection (Args.remove k) (shadow k p out m p.ch v) =
      some (shadow k p out m p.ch v) := by
    simp [insertBeforeSection, unwritten_remove]
  have hinsert' : insertBeforeSection Args.parse p = some p := rfl
  unfold onLeadingSpace
  rw [shadow_ch, hinsert, hinsert']
  by_cases hsp : isHSpace p.ch = true
  · rw [if_pos hsp, if_pos hsp]
    exact beside_reading hp rfl
  rw [if_neg hsp, if_neg hsp]
  by_cases heof : p.ch = weof
  · rw [if_pos heof, if_pos heof]
    exact beside_newLineLoop hp
  rw [if_neg heof, if_neg heof, if_neg hcr, if_neg hcr]
  by_cases hnl : p.ch = L '\n'
  · rw [if_pos hnl, if_pos hnl]
    have hp' : State.plain { p with line := p.line + 1 } := hp
    exact beside_newLineLoop hp'
  rw [if_neg hnl, if_neg hnl]
  by_cases hhash : p.ch = L '#'
  · rw [if_pos hhash, if_pos hhash]
    exact beside_newLineLoop hp
  rw [if_neg hhash, if_neg hhash]
  by_cases hopen : p.ch = L '['
  · rw [if_pos hopen, if_pos hopen]
    exact beside_reading hp rfl
  rw [if_neg hopen, if_neg hopen]
  split
  · refine beside_reject hp _ ?_
    simp [isEol, heof, hnl]
  · have hp' : State.plain { p with
        key := (if (resize p.key p.sectionLength).length > 0
          then resize p.key p.sectionLength ++ [narrow (L '.')] else resize p.key p.sectionLength) ++
            [narrow p.ch] } := hp
    exact beside_reading hp' rfl

def Site.needsMore : Site → Bool
  | .sectionFirst | .sectionName | .keyName | .keySpace => true
  | _ => false

theorem beside_step (h : Beside k x y) (hcr : c ≠ L '\r') (hx : x.1 ≠ .reading .commentReturn)
    (hx' : x.1 ≠ .reading .leadingReturn)
    (hcut : ∀ site, x.1 = .reading site → site.needsMore = true → isEol c = false) :
    Beside k (step Args.parse x c) (step (Args.remove k) y c) := by
  obtain ⟨st, p⟩ := x
  obtain ⟨st', u⟩ := y
  obtain ⟨hst, ⟨out, m, ch, v, hu⟩, hf, hum, hmatch, hesc⟩ := h
  simp only at hst hu hf hum hmatch hesc hx hx' hcut
  subst hst
  have hp : p.plain := ⟨hf, hum⟩
  have hpc : (p.fetch c).plain := ⟨hf, hum⟩
  cases st' with
  | done n =>
    subst hu
    exact beside_done hp n
  | failFast =>
    subst hu
    refine ⟨rfl, ⟨_, _, _, _, rfl⟩, hf, hum, ?_, ?_⟩
    · intro site h
      cases h
    · intro h
      cases h
  | reading site =>
    cases site with
    | comment => subst hu; exact beside_comment hpc hcr
    | commentReturn => exact absurd rfl hx
    | leadingSpace => subst hu; exact beside_leadingSpace hpc hcr
    | leadingReturn => exact absurd rfl hx'
    | sectionFirst => subst hu; exact beside_sectionFirst hpc (hcut _ rfl rfl)
    | sectionName => subst hu; exact beside_sectionName hpc (hcut _ rfl rfl)
    | sectionSpace => subst hu; exact beside_sectionSpace hpc
    | keyName => subst hu; exact beside_keyName hpc (hcut _ rfl rfl)
    | keySpace => subst hu; exact beside_keySpace hpc (hcut _ rfl rfl)
    | valueSpace => subst hu; exact beside_valueSpace hpc hcr
    | value =>
      obtain ⟨hm, hv⟩ := hmatch .value rfl rfl
      subst hu
      obtain rfl : v = p.value := hv
      exact beside_valueLoop hpc hm hcr
    | escape =>
      obtain ⟨hm, hv⟩ := hmatch .escape rfl rfl
      have hch := hesc rfl
      subst hu
      obtain rfl : v = p.value := hv
      obtain rfl : ch = p.ch := hch
      exact beside_escape hp hm hcr
    | invalidLine => subst hu; exact beside_invalid hpc

section Settings

variable (a : Args) (s : State)

theorem writeNewKeyValue_settings : (writeNewKeyValue a s).2.settings = s.settings := by
  unfold writeNewKeyValue
  split
  · rfl
  · simp only [State.put]
    split <;> split <;> rfl

theorem checkEof_settings : (checkEof a s).2.settings = s.settings := by
  unfold checkEof
  split
  · split
    · exact writeNewKeyValue_settings a s
    · rfl
  · rfl

theorem newLineLoop_settings : (newLineLoop a s).2.settings = s.settings := by
  have hflush : (s.flush a).settings = s.settings := by rw [flush_eq]; rfl
  unfold newLineLoop
  simp only
  split
  · exact hflush
  · rw [checkEof_settings, hflush]

theorem newLine_settings : (newLine a s).2.settings = s.settings := by
  unfold newLine
  rw [newLineLoop_settings]
  split <;> rfl

theorem invalidLine_settings : (invalidLine a s).2.settings = s.settings := by
  unfold invalidLine
  split
  · rfl
  split
  · rfl
  · exact newLine_settings a s

theorem rejectCharacter_settings (w : Warning) : (rejectCharacter a s w).2.settings = s.settings := by
  unfold rejectCharacter
  simp only
  rw [invalidLine_settings]
  split <;> rfl

theorem echo_settings : (s.echo a).settings = s.settings := by
  unfold State.echo
  split <;> rfl

theorem onKeySpace_settings : (onKeySpace a s).2.settings = s.settings := by
  unfold onKeySpace
  split
  · exact echo_settings a s
  split
  · exact rejectCharacter_settings a s _
  · exact echo_settings a s

theorem step_settings_of_needsMore (hx : x.1 = .reading site) (hs : site.needsMore = true) :
    (step a x c).2.settings = x.2.settings := by
  obtain ⟨st, s⟩ := x
  simp only at hx
  subst hx
  cases site with
  | sectionFirst =>
    change (onSectionFirst a (s.fetch c)).2.settings = _
    unfold onSectionFirst
    split
    · exact rejectCharacter_settings a _ _
    · exact echo_settings a _
  | sectionName =>
    change (onSectionName a (s.fetch c)).2.settings = _
    unfold onSectionName
    split
    · exact echo_settings a _
    split
    · exact rejectCharacter_settings a _ _
    · exact echo_settings a _
  | keyName =>
    change (onKeyName a (s.fetch c)).2.settings = _
    unfold onKeyName
    split
    · exact echo_settings a _
    · exact onKeySpace_settings a _
  | keySpace => exact onKeySpace_settings a _
  | _ => cases hs

end Settings

section EndOfFile

variable {a : Args} {s : State}

def Status.ending (st : Status) : Prop := st.stopped = true ∨ st = .reading .invalidLine

theorem newLine_ending (hch : s.ch = weof) (he : s.eof = true) : (newLine a s).1.ending := by
  unfold newLine
  split
  · rw [newLineLoop_weof hch]
    exact .inl (checkEof_stopped he).1
  · rw [newLineLoop_weof (s := { s with line := s.line + 1 }) hch]
    exact .inl (checkEof_stopped (s := { s with line := s.line + 1 }) he).1

theorem invalidLine_ending (he : s.eof = true) (hch : s.ch = weof ∨ s.ch ≠ L '\n') :
    (invalidLine a s).1.ending := by
  unfold invalidLine
  split
  · exact .inl rfl
  split
  · exact .inr rfl
  · rename_i hend
    have hw : s.ch = weof := by tauto
    exact newLine_ending hw he

theorem rejectCharacter_ending (hch : s.ch = weof) (he : s.eof = true) (w : Warning) :
    (rejectCharacter a s w).1.ending := by
  unfold rejectCharacter
  simp only
  split
  · exact invalidLine_ending he (.inr (by simp [L]))
  · exact invalidLine_ending he (.inl hch)

theorem valueDone_ending (hch : s.ch = weof) (he : s.eof = true) : (valueDone a s).1.ending := by
  have hwarned : (if s.inQuote then s.warn (.expected "\"" s.line) else s).ch = weof ∧
      (if s.inQuote then s.warn (.expected "\"" s.line) else s).eof = true := by
    split <;> exact ⟨hch, he⟩
  unfold valueDone
  generalize (if s.inQuote then s.warn (.expected "\"" s.line) else s) = s' at hwarned
  obtain ⟨hch', he'⟩ := hwarned
  simp only
  split
  · exact invalidLine_ending he' (.inl hch')
  split
  · apply newLine_ending
    · exact hch'
    · exact he'
  split
  · apply newLine_ending
    · exact hch'
    · exact he'
  · exact newLine_ending hch' he'

theorem valueLoop_ending (hch : s.ch = weof) (he : s.eof = true) : (valueLoop a s).1.ending := by
  unfold valueLoop
  rw [if_pos (.inl hch)]
  exact valueDone_ending hch he

theorem readEof_ending (hx : x.1 ≠ .reading .commentReturn) (hx' : x.1 ≠ .reading .leadingReturn)
    (hesc : x.1 = .reading .escape → x.2.ch = L '\\' ∧ x.2.firstMatchedKey = false) :
    (readEof a x).1.ending := by
  obtain ⟨st, s⟩ := x
  have halnum : isalnum weof = false := by decide
  have halpha : isalpha weof = false := by decide
  have hsp : isHSpace weof = false := by decide
  cases st with
  | done n => exact .inl rfl
  | failFast => exact .inl rfl
  | reading site =>
    unfold readEof step
    cases site with
    | commentReturn => exact absurd rfl hx
    | leadingReturn => exact absurd rfl hx'
    | comment =>
      have h1 : weof ≠ L '\r' := by decide
      have h2 : weof ≠ L '\n' := by decide
      have heq : onComment a s.atEnd =
          checkEof a { s.atEnd with trailingComment := false } := by
        simp [onComment, commentEnd, h1, h2]
      change (onComment a s.atEnd).1.ending
      rw [heq]
      exact .inl (checkEof_stopped rfl).1
    | leadingSpace =>
      have heq : onLeadingSpace a s.atEnd =
          checkEof a s.atEnd := by
        simp [onLeadingSpace, hsp, newLineLoop_weof]
      change (onLeadingSpace a s.atEnd).1.ending
      rw [heq]
      exact .inl (checkEof_stopped rfl).1
    | sectionFirst =>
      change (onSectionFirst a s.atEnd).1.ending
      simp only [onSectionFirst, halpha, Bool.not_false, if_true]
      exact rejectCharacter_ending rfl rfl _
    | sectionName =>
      have hb : weof ≠ L ']' := by decide
      change (onSectionName a s.atEnd).1.ending
      simp only [onSectionName, halnum, Bool.false_eq_true, if_false, hb, ne_eq, not_false_eq_true, if_true]
      exact rejectCharacter_ending rfl rfl _
    | sectionSpace =>
      change (onSectionSpace a s.atEnd).1.ending
      simp only [onSectionSpace, hsp, Bool.false_eq_true, if_false, true_or, if_true]
      exact newLine_ending rfl rfl
    | keyName =>
      have hb : weof ≠ L '=' := by decide
      change (onKeyName a s.atEnd).1.ending
      simp only [onKeyName, onKeySpace, halnum, hsp, Bool.false_eq_true, if_false, hb, ne_eq,
        not_false_eq_true, if_true]
      exact rejectCharacter_ending rfl rfl _
    | keySpace =>
      have hb : weof ≠ L '=' := by decide
      change (onKeySpace a s.atEnd).1.ending
      simp only [onKeySpace, hsp, Bool.false_eq_true, if_false, hb, ne_eq, not_false_eq_true, if_true]
      exact rejectCharacter_ending rfl rfl _
    | valueSpace =>
      change (onValueSpace a s.atEnd).1.ending
      simp only [onValueSpace, hsp, Bool.false_eq_true, if_false, beginValue]
      exact valueLoop_ending rfl rfl
    | value => exact valueLoop_ending rfl rfl
    | escape =>
      have hesc' : escapeText weof = none := by decide
      change (onEscape a { s with eof := true } weof).1.ending
      rw [onEscape_none (by decide) hesc']
      obtain ⟨hch, hf⟩ : s.ch = L '\\' ∧ s.firstMatchedKey = false := hesc rfl
      have hf' : ¬ ({ s with eof := true } : State).firstMatchedKey = true := by simpa using hf
      rw [if_neg hf']
      apply invalidLine_ending
      · rfl
      · right
        change s.ch ≠ L '\n'
        rw [hch]
        decide
    | invalidLine =>
      have heq : onInvalidLine a s.atEnd =
          newLine a s.atEnd := by simp [onInvalidLine]
      change (onInvalidLine a s.atEnd).1.ending
      rw [heq]
      exact newLine_ending rfl rfl

theorem readEof_of_ending (h : x.1.ending) :
    (readEof a x).1.ending ∧ (readEof a x).2.settings = x.2.settings := by
  obtain ⟨st, s⟩ := x
  rcases h with h | h
  · have heq : readEof a (st, s) = (st, { s with eof := true }) :=
      step_of_stopped (x := (st, { s with eof := true })) h weof
    rw [heq]
    exact ⟨.inl h, rfl⟩
  · simp only at h
    subst h
    have heq : readEof a (.reading .invalidLine, s) = newLine a s.atEnd := by
      change onInvalidLine a s.atEnd = _
      simp [onInvalidLine]
    rw [heq]
    exact ⟨newLine_ending rfl rfl, newLine_settings _ _⟩

theorem finish_settings (h : (readEof a x).1.ending) : (finish a x).2.settings = (readEof a x).2.settings := by
  obtain ⟨h1, h2⟩ := readEof_of_ending (a := a) h
  obtain ⟨-, h3⟩ := readEof_of_ending (a := a) h1
  rw [finish, h3, h2]

end EndOfFile

/-- A line that ends inside a header or a name, with text after it: update mode
passes over the next line as well. -/
def Reader.swallows (r : Reader) : List WChar → Bool
  | [] => false
  | c :: text => r.cutOff c && !text.isEmpty || (r.next c).swallows text

theorem needsMore_of_tracks (ht : Tracks x r) (hx : x.1 = .reading site) (hc : isEol c = true) :
    site.needsMore = r.cutOff c := by
  obtain ⟨sect, phase⟩ := r
  obtain ⟨st, s⟩ := x
  simp only at hx
  subst hx
  cases phase with
  | lineStart => obtain ⟨-, h, -⟩ := ht; cases h; rfl
  | comment => obtain ⟨-, h, -⟩ := ht; cases h; rfl
  | invalid => obtain ⟨-, h, -⟩ := ht; cases h; rfl
  | sectionFirst => obtain ⟨-, h, -⟩ := ht; cases h; exact hc.symm
  | sectionName name => obtain ⟨-, h, -⟩ := ht; cases h; exact hc.symm
  | sectionSpace name => obtain ⟨-, h, -⟩ := ht; cases h; rfl
  | keyName name => obtain ⟨-, h, -⟩ := ht; cases h; exact hc.symm
  | keySpace name => obtain ⟨-, h, -⟩ := ht; cases h; exact hc.symm
  | valueSpace name => obtain ⟨-, h, -⟩ := ht; cases h; rfl
  | value name kept blanks q => obtain ⟨-, h, -⟩ := ht; cases h; rfl
  | escape name value q => obtain ⟨-, h, -⟩ := ht; cases h; rfl

theorem site_of_tracks (ht : Tracks x r) : ∃ site, x.1 = .reading site ∧ site ≠ .commentReturn ∧
    site ≠ .leadingReturn ∧ (site = .escape → x.2.ch = L '\\' ∧ x.2.firstMatchedKey = false) := by
  obtain ⟨sect, phase⟩ := r
  cases phase with
  | escape name value q =>
    obtain ⟨-, h, -, -, -, -, hch, hf, -⟩ := ht
    exact ⟨_, h, by decide, by decide, fun _ => ⟨hch, hf⟩⟩
  | _ =>
    obtain ⟨-, h, -⟩ := ht
    exact ⟨_, h, by decide, by decide, by intro hsite; cases hsite⟩

theorem plain_of_isEol (h : isEol c = true) :
    isHSpace c = false ∧ isalnum c = false ∧ isalpha c = false ∧ c ≠ L ']' ∧ c ≠ L '=' := by
  rcases (isEol_iff c).mp h with rfl | rfl
  · decide
  · decide

theorem step_remove_cut (hx : x.1 = .reading site) (hs : site.needsMore = true) (hc : isEol c = true) :
    (step (Args.remove k) x c).1 = .reading .invalidLine := by
  have hreject : ∀ (s : State) (w : Warning),
      (rejectCharacter (Args.remove k) s w).1 = .reading .invalidLine := by
    intro s w
    have hzero : (0 : WChar) ≠ weof ∧ (0 : WChar) ≠ L '\n' := by decide
    simp [rejectCharacter, invalidLine, Args.remove, Args.updateConfigFile, State.warn, State.put, hzero]
  obtain ⟨hsp, halnum, halpha, hclose⟩ := plain_of_isEol hc
  obtain ⟨st, s⟩ := x
  simp only at hx
  subst hx
  cases site with
  | sectionFirst =>
    change (onSectionFirst (Args.remove k) (s.fetch c)).1 = _
    simp [onSectionFirst, State.fetch, halpha, hreject]
  | sectionName =>
    change (onSectionName (Args.remove k) (s.fetch c)).1 = _
    simp [onSectionName, State.fetch, halnum, hclose, hreject]
  | keyName =>
    change (onKeyName (Args.remove k) (s.fetch c)).1 = _
    simp [onKeyName, onKeySpace, State.fetch, halnum, hsp, hclose, hreject]
  | keySpace =>
    change (onKeySpace (Args.remove k) (s.fetch c)).1 = _
    simp [onKeySpace, State.fetch, hsp, hclose, hreject]
  | _ => cases hs

theorem settings_of_beside (h : Beside k x y) : y.2.settings = withoutKey k x.2.settings := by
  obtain ⟨-, ⟨out, m, ch, v, hu⟩, -⟩ := h
  rw [hu]
  rfl

theorem beside_eof (h : Beside k x y) :
    Beside k (x.1, { x.2 with eof := true }) (y.1, { y.2 with eof := true }) := by
  obtain ⟨hst, ⟨out, m, ch, v, hu⟩, hf, hum, hmatch, hesc⟩ := h
  refine ⟨hst, ⟨out, m, ch, v, ?_⟩, hf, hum, hmatch, hesc⟩
  simp only [hu]
  rfl

theorem beside_finish (h : Beside k x y) (ht : Tracks x r) :
    (finish (Args.remove k) y).2.settings = withoutKey k (finish Args.parse x).2.settings := by
  obtain ⟨site, hsite, hne, hne', hesc⟩ := site_of_tracks ht
  have hx : x.1 ≠ .reading .commentReturn := by rw [hsite]; simpa using hne
  have hx' : x.1 ≠ .reading .leadingReturn := by rw [hsite]; simpa using hne'
  have hfirst : y.2.firstMatchedKey = false := by
    obtain ⟨-, ⟨out, m, ch, v, hu⟩, hf, -⟩ := h
    rw [hu]
    exact hf
  have hescx : x.1 = .reading .escape → x.2.ch = L '\\' ∧ x.2.firstMatchedKey = false := fun he =>
    hesc (by simpa [hsite] using he)
  have hendx : (readEof Args.parse x).1.ending := readEof_ending hx hx' hescx
  have hendy : (readEof (Args.remove k) y).1.ending := by
    refine readEof_ending (by rwa [h.1]) (by rwa [h.1]) fun he => ⟨?_, hfirst⟩
    have he' : x.1 = .reading .escape := h.1 ▸ he
    rw [h.2.escape he', (hescx he').1]
  rw [finish_settings hendx, finish_settings hendy]
  cases hs : site.needsMore with
  | true =>
    have hy : y.1 = .reading site := h.1.trans hsite
    have h1 : (readEof Args.parse x).2.settings = x.2.settings :=
      step_settings_of_needsMore Args.parse (x := (x.1, { x.2 with eof := true })) hsite hs
    have h2 : (readEof (Args.remove k) y).2.settings = y.2.settings :=
      step_settings_of_needsMore (Args.remove k) (x := (y.1, { y.2 with eof := true })) hy hs
    rw [h1, h2, settings_of_beside h]
  | false =>
    refine settings_of_beside (beside_step (beside_eof h) (by decide) hx hx' fun site' hs' hm => ?_)
    obtain rfl : site' = site := by
      have : Status.reading site' = .reading site := hs'.symm.trans hsite
      simpa using this
    rw [hs] at hm
    cases hm

theorem phase_of_cutOff (h : r.cutOff c = true) : (r.next c).phase = .lineStart := by
  obtain ⟨sect, phase⟩ := r
  have hc : isEol c = true := by
    unfold Reader.cutOff at h
    split at h
    all_goals first | exact h | cases h
  obtain ⟨hsp, halnum, halpha, hclose⟩ := plain_of_isEol hc
  cases phase with
  | sectionFirst => simp [Reader.next, reject, halpha, hc]
  | sectionName name => simp [Reader.next, reject, halnum, hclose, hc]
  | keyName name => simp [Reader.next, reject, halnum, hsp, hclose, hc]
  | keySpace name => simp [Reader.next, reject, hsp, hclose, hc]
  | _ => cases h

theorem readEof_of_lineStart {a : Args} (ht : Tracks x r) (hr : r.phase = .lineStart) :
    (readEof a x).1.ending ∧ (readEof a x).2.settings = x.2.settings := by
  obtain ⟨st, s⟩ := x
  obtain ⟨sect, phase⟩ := r
  simp only at hr
  subst hr
  obtain ⟨-, rfl, -⟩ := ht
  have hsp : isHSpace weof = false := by decide
  have heq : readEof a (.reading .leadingSpace, s) = checkEof a s.atEnd := by
    change onLeadingSpace a s.atEnd = _
    simp [onLeadingSpace, hsp, newLineLoop_weof]
  rw [heq]
  exact ⟨.inl (checkEof_stopped rfl).1, checkEof_settings a _⟩

theorem swallows_cons (r : Reader) (c : WChar) (text : List WChar) :
    r.swallows (c :: text) = false ↔ (r.cutOff c = true → text = []) ∧ (r.next c).swallows text = false := by
  cases text <;> simp [Reader.swallows]

theorem settings_run (text : List WChar) (h : Beside k x y) (ht : Tracks x r) (he : x.2.eof = false)
    (hcr : L '\r' ∉ text) (hs : r.swallows text = false) :
    (finish (Args.remove k) (scan (Args.remove k) y text)).2.settings =
      withoutKey k (finish Args.parse (scan Args.parse x text)).2.settings := by
  induction text generalizing x y r with
  | nil => exact beside_finish h ht
  | cons c text ih =>
    have hc : c ≠ L '\r' := fun hc => hcr (hc ▸ List.mem_cons_self)
    have hf : Follows Args.parse x.2 r c (step Args.parse x c) := step_follows (quiet_parse he hc) ht
    obtain ⟨hlast, hrest⟩ := (swallows_cons r c text).mp hs
    obtain ⟨site, hsite, hne, hne', -⟩ := site_of_tracks ht
    have hy : y.1 = .reading site := h.1.trans hsite
    by_cases hcut : isEol c = true ∧ site.needsMore = true
    · -- An error at the very last character: nothing follows that could be lost.
      have hcutOff : r.cutOff c = true := (needsMore_of_tracks ht hsite hcut.1).symm.trans hcut.2
      obtain rfl := hlast hcutOff
      have hy' := step_settings_of_needsMore (c := c) (Args.remove k) hy hcut.2
      have hx' := step_settings_of_needsMore (c := c) Args.parse hsite hcut.2
      obtain ⟨hend, hsame⟩ := readEof_of_ending (a := Args.remove k)
        (.inr (step_remove_cut (k := k) hy hcut.2 hcut.1))
      obtain ⟨hendx, hsamex⟩ := readEof_of_lineStart (a := Args.parse) hf.tracks
        (phase_of_cutOff hcutOff)
      change (finish _ (step (Args.remove k) y c)).2.settings =
        withoutKey k (finish _ (step Args.parse x c)).2.settings
      rw [finish_settings hend, hsame, hy', finish_settings hendx, hsamex, hx', settings_of_beside h]
    · have hstep : Beside k (step Args.parse x c) (step (Args.remove k) y c) := by
        refine beside_step h hc (by rw [hsite]; simpa using hne) (by rw [hsite]; simpa using hne') ?_
        intro site' hs' hm
        obtain rfl : site' = site := by
          have : Status.reading site' = .reading site := hs'.symm.trans hsite
          simpa using this
        by_contra hnot
        exact hcut ⟨by simpa using hnot, hm⟩
      exact ih hstep hf.tracks hf.eof (fun hmem => hcr (List.mem_cons_of_mem _ hmem)) hrest

theorem beside_start (k : ConfigKey) :
    Beside k (newLine Args.parse State.initial) (newLine (Args.remove k) State.initial) := by
  have hp : State.initial.plain := ⟨rfl, rfl⟩
  have h : Beside k (newLine Args.parse State.initial)
      (newLine (Args.remove k) (shadow k State.initial [] false 0 [0])) := beside_newLine hp
  exact h

/-- Without a line that ends inside a header or a name, update mode reports what
parse mode reports, less the key's settings. -/
theorem settings_remove (k : ConfigKey) {text : List WChar} (hcr : L '\r' ∉ text)
    (hs : start.swallows text = false) :
    (parseConfigFile (Args.remove k) text).2.settings =
      withoutKey k (parseConfigFile Args.parse text).2.settings := by
  obtain ⟨ht, heq⟩ := tracks_newLine Args.parse
  exact settings_run text (beside_start k) ht (by rw [heq]; rfl) hcr hs

/-- The line after `babyshark` is lost in update mode. -/
theorem settings_remove_swallowed :
    ¬ ∀ (k : ConfigKey) (text : List WChar), L '\r' ∉ text → (parseConfigFile (Args.remove k) text).2.settings =
        (parseConfigFile Args.parse text).2.settings.filter fun t => !k.matches t.name := by
  intro h
  have hbad := h ⟨[bytes "wsl2.memory"], []⟩ (wide "[wsl2]\nbabyshark\nswap=0\n") (by decide)
  revert hbad
  decide

theorem settings_remove_memory :
    let k : ConfigKey := ⟨[bytes "wsl2.memory"], []⟩
    let text := wide "[wsl2]\nmemory=\"4\\\nGB\" # half\n=\nswap = 0\nbabyshark\n"
    (parseConfigFile (Args.remove k) text).2.settings =
      withoutKey k (parseConfigFile Args.parse text).2.settings :=
  settings_remove _ (by decide +kernel) (by decide +kernel)

end WslPlus.ConfigFile
