import WslPlus.ConfigFile.Others

/-!
# Removing a setting

The machine copies the text. At a value of the key it cuts its output back to
the line before and writes nothing until the value ends.
-/

namespace WslPlus.ConfigFile

open Bool List Reader

variable {k : ConfigKey} {r : Reader} {c : WChar} {x : Status × State} {s : State} {text out : List WChar}

def Args.remove (k : ConfigKey) : Args :=
  { skipInvalidLines := true, hasFile := true, outputKey := some k, removeKey := true }

def remove (k : ConfigKey) (text : List WChar) : List WChar :=
  (parseConfigFile (Args.remove k) text).2.configFileOutput

theorem unwritten_remove (k : ConfigKey) (s : State) : s.unwritten (Args.remove k) = false := by
  simp [State.unwritten, Args.remove]

section Anchor

theorem dropLastLine_append {a b : List WChar} (hb : L '\n' ∉ b) : dropLastLine (a ++ L '\n' :: b) = a := by
  have hdrop : (a ++ L '\n' :: b).reverse.dropWhile (· != L '\n') = L '\n' :: a.reverse := by
    have hall : ∀ c ∈ b.reverse, (c != L '\n') = true := by
      intro c hc
      have hne : c ≠ L '\n' := by
        rintro rfl
        exact hb (mem_reverse.mp hc)
      simpa using hne
    rw [reverse_append, reverse_cons, append_assoc,
      dropWhile_append_of_pos hall]
    simp
  rw [dropLastLine, if_pos (by simp), hdrop]
  simp

/-- The line that is being written starts after a newline, and the reader
stands at the start of that line with the section it has now. -/
def Anchored (out : List WChar) (sect : List UInt8) : Prop :=
  ∃ a b, out = a ++ L '\n' :: b ∧ L '\n' ∉ b ∧
    start.after (a ++ [L '\n']) = ⟨sect, .lineStart⟩ ∧
    start.emits (a ++ [L '\n']) = start.emits out

def Reader.inKeyLine (r : Reader) : Bool :=
  match r.phase with
  | .lineStart | .keyName _ | .keySpace _ | .valueSpace _ => true
  | _ => false

theorem inKeyLine_nextValue {name kp b : List UInt8} {q : Bool} (hc : isEol c = false) :
    (r.nextValue name kp b q c).inKeyLine = false := by
  unfold nextValue
  rw [if_neg (by simp [hc])]
  repeat' split
  all_goals rfl

theorem inKeyLine_next (h : (r.next c).inKeyLine = true) (hc : isEol c = false) :
    r.inKeyLine = true ∧ (r.next c).sect = r.sect ∧ r.emit c = [] := by
  obtain ⟨sect, phase⟩ := r
  have hrej : ∀ r : Reader, (r.reject c).inKeyLine = false := by
    intro r
    simp [reject, hc, inKeyLine]
  cases phase with
  | lineStart =>
    refine ⟨rfl, ?_, emit_of_pending rfl⟩
    simp only [Reader.next]
    repeat' split
    all_goals rfl
  | comment => exact absurd h (by simp [Reader.next, hc, inKeyLine])
  | invalid => exact absurd h (by simp [Reader.next, hc, inKeyLine])
  | sectionFirst =>
    simp only [Reader.next] at h
    split at h
    · exact absurd h (by simp [inKeyLine])
    · exact absurd h (by simp [hrej])
  | sectionName name =>
    simp only [Reader.next] at h
    repeat' split at h
    · exact absurd h (by simp [inKeyLine])
    · exact absurd h (by simp [inKeyLine])
    · exact absurd h (by simp [hrej])
  | sectionSpace name =>
    simp only [Reader.next, hc] at h
    repeat' split at h
    · exact absurd h (by simp [inKeyLine])
    · rename_i heol
      exact absurd heol (by simp)
    · exact absurd h (by simp [inKeyLine])
    · exact absurd h (by simp [hrej])
  | keyName name =>
    refine ⟨rfl, ?_, emit_of_pending rfl⟩
    simp only [Reader.next]
    repeat' split
    all_goals rfl
  | keySpace name =>
    refine ⟨rfl, ?_, emit_of_pending rfl⟩
    simp only [Reader.next]
    repeat' split
    all_goals rfl
  | valueSpace name =>
    simp only [Reader.next] at h ⊢
    split at h
    · rename_i hsp
      rw [if_pos hsp]
      exact ⟨rfl, rfl, emit_eq_nil hc (hash_of_isHSpace hsp)⟩
    · exact absurd h (by simp [inKeyLine_nextValue hc])
  | value name kp b q => exact absurd h (by simp [Reader.next, inKeyLine_nextValue hc])
  | escape name value q =>
    simp only [Reader.next] at h
    split at h <;> exact absurd h (by simp [inKeyLine])

theorem anchored_next (hr : start.after out = r) (hw : c ≠ weof)
    (ha : r.inKeyLine = true → r.sect ≠ [] → Anchored out r.sect)
    (hk : (r.next c).inKeyLine = true) (hs : (r.next c).sect ≠ []) : Anchored (out ++ [c]) (r.next c).sect := by
  by_cases hc : isEol c = true
  · have hnl : c = L '\n' := ((isEol_iff c).mp hc).resolve_right hw
    subst hnl
    refine ⟨out, [], by simp, by simp, ?_, by simp⟩
    have hphase : (r.next (L '\n')).phase = .lineStart := by
      cases he : r.inEscape with
      | false => rw [(next_newline he).1]
      | true =>
        obtain ⟨sect, phase⟩ := r
        cases phase with
        | escape name value q =>
          have hesc : escapeText (L '\n') = some [] := by decide
          exact absurd hk (by simp [Reader.next, hesc, inKeyLine])
        | _ => exact absurd he (by simp [inEscape])
    rw [after_append, hr, ← hphase]
    rfl
  · obtain ⟨h1, h2, h3⟩ := inKeyLine_next hk (by simpa using hc)
    obtain ⟨a, b, ho, hb, hra, hea⟩ := ha h1 (h2 ▸ hs)
    refine ⟨a, b ++ [c], by simp [ho], ?_, by rw [h2, hra], ?_⟩
    · have hne : L '\n' ≠ c := fun h => hc (h ▸ by decide)
      simp [hb, hne]
    · rw [hea, emits_append, hr, emits_cons, h3]
      simp

def Reader.plainName (r : Reader) : Prop :=
  match r.phase with
  | .keyName name | .keySpace name | .valueSpace name => narrow (L '.') ∉ name
  | _ => True

theorem narrow_ne_dot (h : isalnum c = true) : narrow (L '.') ≠ narrow c := by
  intro hn
  have hnat := congrArg UInt8.toNat hn
  have hdot : (narrow (L '.')).toNat = 46 := by decide
  rw [hdot] at hnat
  simp only [narrow, UInt16.toNat_toUInt8] at hnat
  simp only [isalnum, isalpha, or_eq_true, and_eq_true, decide_eq_true_eq,
    UInt16.le_iff_toNat_le, UInt16.reduceToNat] at h
  omega

theorem plainName_next (h : r.plainName) : (r.next c).plainName := by
  obtain ⟨sect, phase⟩ := r
  cases phase with
  | lineStart =>
    simp only [Reader.next]
    split
    · trivial
    split
    · trivial
    split
    · trivial
    split
    · trivial
    split
    · rename_i ha
      simpa [plainName] using narrow_ne_dot (isalnum_of_isalpha ha)
    · trivial
  | keyName name =>
    simp only [Reader.next, reject]
    split
    · rename_i ha
      have hne := narrow_ne_dot ha
      have hname : narrow (L '.') ∉ name := h
      simpa [plainName, hname] using hne
    split
    · exact h
    split
    · exact h
    · split <;> trivial
  | keySpace name =>
    simp only [Reader.next, reject]
    split
    · exact h
    split
    · exact h
    · split <;> trivial
  | valueSpace name =>
    simp only [Reader.next, nextValue]
    split
    · exact h
    · repeat' split
      all_goals trivial
  | _ =>
    simp only [Reader.next, nextValue, reject]
    repeat' split
    all_goals trivial

theorem tolower_eq_dot {b : UInt8} (h : tolower b = narrow (L '.')) : b = narrow (L '.') := by
  unfold tolower at h
  split at h
  · rename_i hb
    simp only [and_eq_true, decide_eq_true_eq, UInt8.le_iff_toNat_le, UInt8.reduceToNat] at hb
    have hnat := congrArg UInt8.toNat h
    have hdot : (narrow (L '.')).toNat = 46 := by decide
    rw [hdot, UInt8.toNat_add] at hnat
    simp only [UInt8.reduceToNat] at hnat
    omega
  · exact h

theorem sect_of_atKey (hk : k.wellFormed) (h : r.plainName) (ha : r.atKey k c = true) : r.sect ≠ [] := by
  intro hs
  obtain ⟨name, hphase, hmatch⟩ := atKey_phase ha
  have hname : narrow (L '.') ∉ name := by simpa [plainName, hphase] using h
  have hq : qualify ⟨r.sect, .lineStart⟩ name = name := by simp [qualify, hs]
  rw [hq, ConfigKey.matches, any_eq_true] at hmatch
  obtain ⟨e, he, hcmp⟩ := hmatch
  obtain ⟨sectionName, keyName, rfl, -, -⟩ := hk.2 e he
  have heq : (sectionName ++ narrow (L '.') :: keyName).map tolower = (cstr name).map tolower := by
    simpa [strcasecmp] using hcmp
  have hmem : tolower (narrow (L '.')) ∈ (cstr name).map tolower := by
    rw [← heq]
    exact mem_map_of_mem (by simp)
  obtain ⟨b, hb, hbt⟩ := mem_map.mp hmem
  have hdot : b = narrow (L '.') := tolower_eq_dot (hbt.trans (by decide))
  subst hdot
  exact hname (takeWhile_subset _ hb)

end Anchor

section Copy

/-- The machine copies, and its output is read like the text so far. -/
structure Mirrors (k : ConfigKey) (x : Status × State) (r : Reader) : Prop where
  tracks : Tracks x r
  eof : x.2.eof = false
  reader : start.after x.2.configFileOutput = r
  clear : r.clear k
  plain : r.plainName
  anchor : r.inKeyLine = true → r.sect ≠ [] → Anchored x.2.configFileOutput r.sect
  noReturn : L '\r' ∉ x.2.configFileOutput

theorem atKey_eq_remove {name : List UInt8} {st : Status} (ht : Tracks (st, s) r)
    (hp : r.phase = .valueSpace name) (hsp : isHSpace c = false) : s.isKey (Args.remove k) = r.atKey k c := by
  rw [← atKey_eq (k := k) ht hp hsp]
  rfl

theorem quiet_remove {st : Status} (ht : Tracks (st, s) r) (he : s.eof = false)
    (hc : c ≠ L '\r') (hw : c ≠ weof) (hcut : r.cutOff c = false) (hk : r.atKey k c = false) :
    Quiet (Args.remove k) s r c where
  skip := rfl
  eof := he
  noReturn := hc
  whole := fun _ => ⟨hw, hcut⟩
  noInsert := by
    intro _ _
    unfold insertBeforeSection
    rw [unwritten_remove]
    rfl
  noMatch := by
    intro name hp hsp
    rw [unwritten_remove, atKey_eq_remove ht hp hsp, hk]
    exact ⟨rfl, by simp⟩

/-- Outside the key's values the copy is exact, but for a newline before the
comment of a header. -/
theorem after_written (hq : r.quotedHash c = false) :
    r.after (written (Args.remove k) s r c) = r.next c ∧
      r.emits (written (Args.remove k) s r c) = r.emit c ∧
      (written (Args.remove k) s r c = [c] ∨ (c = L '#' ∧ (r.next c).inKeyLine = false ∧
        written (Args.remove k) s r c = [L '\n', L '#'])) := by
  unfold written
  have hu : (!(Args.remove k).updateConfigFile || r.quotedHash c) = false := by
    simp [hq, Args.remove, Args.updateConfigFile]
  rw [hu]
  simp only [false_eq_true, if_false]
  split
  · rename_i h
    simp only [and_eq_true, beq_iff_eq] at h
    obtain ⟨⟨-, hh⟩, rfl⟩ := h
    obtain ⟨sect, phase⟩ := r
    cases phase with
    | sectionSpace name => exact ⟨rfl, rfl, .inr ⟨rfl, rfl, rfl⟩⟩
    | _ => exact absurd hh (by simp [inHeaderTail])
  · exact ⟨rfl, by simp, .inl rfl⟩

theorem quotedHash_of_clear (h : r.clear k)
    (hu : (r.quotedHash c && r.valueName.any (others k)) = false) : r.quotedHash c = false := by
  obtain ⟨sect, phase⟩ := r
  cases phase with
  | value name kp b q =>
    have hm : k.matches (cstr (qualify ⟨sect, .value name kp b q⟩ name)) = false := h
    simpa [valueName, others, hm] using hu
  | _ => rfl

theorem kept_others_of_names {pairs : List Pair} (h : ∀ n ∈ names pairs, k.matches n = false) :
    kept (others k) pairs = pairs := by
  unfold kept
  rw [filter_eq_self]
  intro p hp
  simp [others, h p.1 (mem_map_of_mem hp)]

theorem step_mirrors (hx : Mirrors k x r) (hc : c ≠ L '\r') (hw : c ≠ weof)
    (hcut : r.cutOff c = false) (hu : (r.quotedHash c && r.valueName.any (others k)) = false)
    (hk : r.atKey k c = false) :
    Mirrors k (step (Args.remove k) x c) (r.next c) ∧
      start.emits (step (Args.remove k) x c).2.configFileOutput =
        start.emits x.2.configFileOutput ++ kept (others k) (r.emit c) := by
  have hf : Follows (Args.remove k) x.2 r c (step (Args.remove k) x c) :=
    step_follows (quiet_remove hx.tracks hx.eof hc hw hcut hk) hx.tracks
  obtain ⟨h1, h2, h3⟩ := after_written (k := k) (s := x.2) (quotedHash_of_clear hx.clear hu)
  have hkept := kept_others_of_names (clear_emit hx.clear hk)
  have hread : start.after (step (Args.remove k) x c).2.configFileOutput = r.next c := by
    rw [hf.output, after_append, hx.reader, h1]
  refine ⟨⟨hf.tracks, hf.eof, hread, clear_next hx.clear hk, plainName_next hx.plain, ?_, ?_⟩, ?_⟩
  · intro hkl hs
    rcases h3 with h3 | ⟨-, hno, -⟩
    · rw [hf.output, h3]
      exact anchored_next hx.reader hw hx.anchor hkl hs
    · exact absurd hkl (by simp [hno])
  · rw [hf.output]
    have hne : L '\r' ≠ L '\n' ∧ L '\r' ≠ L '#' := by decide
    rcases h3 with h3 | ⟨-, -, h3⟩
    · simp [h3, hx.noReturn, hc.symm]
    · simp [h3, hx.noReturn, hne]
  · rw [hf.output, emits_append, hx.reader, h2, hkept]

theorem mirrors_start (k : ConfigKey) : Mirrors k (newLine (Args.remove k) State.initial) start := by
  obtain ⟨ht, heq⟩ := tracks_newLine (Args.remove k)
  refine ⟨ht, by rw [heq]; rfl, by rw [heq]; rfl, trivial, trivial, ?_, by rw [heq]; simp [State.initial]⟩
  intro _ hs
  exact absurd rfl hs

end Copy

section Removal

/-- The machine inside a value that is being removed: `out` ends before the
newline of the line that held it. -/
structure Removing (k : ConfigKey) (x : Status × State) (r : Reader) (out : List WChar) : Prop where
  site : match r.phase with
    | .valueSpace _ => x.1 = .reading .value ∧ x.2.inQuote = false
    | .value _ _ _ q => x.1 = .reading .value ∧ x.2.inQuote = q
    | .escape _ _ q => x.1 = .reading .escape ∧ x.2.inQuote = q ∧ x.2.ch = L '\\'
    | .invalid => x.1 = .reading .invalidLine
    | _ => False
  name : r.valueName.all k.matches = true
  length : x.2.sectionLength = r.sect.length
  key : resize x.2.key x.2.sectionLength = r.sect
  trailing : x.2.trailingComment = false
  first : x.2.firstMatchedKey = false
  matched : x.2.matchedKey = true
  eof : x.2.eof = false
  output : x.2.configFileOutput = out
  reader : start.after (out ++ [L '\n']) = ⟨r.sect, .lineStart⟩
  noReturn : L '\r' ∉ out

theorem Removing.pending {x : Status × State} (hx : Removing k x r out) :
    kept (others k) r.pending.toList = [] := by
  have hn := hx.name
  obtain ⟨sect, phase⟩ := r
  cases phase with
  | valueSpace name =>
    have hm : k.matches (cstr (qualify ⟨sect, .valueSpace name⟩ name)) = true := by
      simpa [valueName] using hn
    simp [kept, Reader.pending, others, hm]
  | value name kp b q =>
    have hm : k.matches (cstr (qualify ⟨sect, .value name kp b q⟩ name)) = true := by
      simpa [valueName] using hn
    cases q with
    | true => rfl
    | false => simp [kept, Reader.pending, others, hm]
  | _ => rfl

theorem Removing.emit (hx : Removing k x r out) : kept (others k) (r.emit c) = [] := by
  unfold Reader.emit
  split
  · exact hx.pending
  · rfl

theorem valueDone_removing (hf : s.firstMatchedKey = false) (hm : s.matchedKey = true) :
    ∃ y, valueDone (Args.remove k) s = newLine (Args.remove k) y ∧ y.ch = s.ch ∧ y.eof = s.eof ∧
      y.sectionLength = s.sectionLength ∧ y.key = s.key ∧
      y.trailingComment = s.trailingComment ∧ y.matchedKey = true ∧
      y.configFileOutput = s.configFileOutput := by
  refine ⟨if s.inQuote then s.warn (.expected "\"" s.line) else s, ?_⟩
  cases hq : s.inQuote <;> simp [valueDone, hq, hf, hm, State.warn]

theorem newLine_removing (sect : List UInt8) (hch : s.ch = L '\n')
    (htc : s.trailingComment = false) (he : s.eof = false) (hl : s.sectionLength = sect.length)
    (hr : resize s.key s.sectionLength = sect) (ho : s.configFileOutput = out)
    (hread : start.after (out ++ [L '\n']) = ⟨sect, .lineStart⟩) (hnr : L '\r' ∉ out) :
    Mirrors k (newLine (Args.remove k) s) ⟨sect, .lineStart⟩ ∧
      (newLine (Args.remove k) s).2.configFileOutput = out ++ [L '\n'] := by
  have hzero : (L '\n' != 0 && L '\n' != weof) = true := by decide
  have hne : L '\n' ≠ L '#' := by decide
  have heq : newLine (Args.remove k) s =
      (.reading .leadingSpace, ({ s with line := s.line + 1 }).put [L '\n']) := by
    rw [newLine_of_not_trailing htc, newLineLoop, flush_eq]
    simp [hch, htc, he, hne, hzero, checkEof, State.put, Args.remove, Args.updateConfigFile]
  rw [heq]
  have hout : (({ s with line := s.line + 1 } : State).put [L '\n']).configFileOutput =
      out ++ [L '\n'] := by
    rw [← ho]
    rfl
  refine ⟨⟨⟨hl, rfl, htc, hr⟩, he, ?_, trivial, trivial, ?_, ?_⟩, hout⟩
  · rw [hout, hread]
  · intro _ _
    rw [hout]
    exact ⟨out, [], rfl, by simp, hread, rfl⟩
  · rw [hout]
    have hne : L '\r' ≠ L '\n' := by decide
    simp [hnr, hne]

theorem newLine_removing_hash (sect : List UInt8) (hch : s.ch = L '#')
    (htc : s.trailingComment = true) (hm : s.matchedKey = true) (he : s.eof = false)
    (hl : s.sectionLength = sect.length) (hr : resize s.key s.sectionLength = sect)
    (ho : s.configFileOutput = out)
    (hread : start.after (out ++ [L '\n']) = ⟨sect, .lineStart⟩) (hnr : L '\r' ∉ out) :
    Mirrors k (newLine (Args.remove k) s) ⟨sect, .comment⟩ ∧
      (newLine (Args.remove k) s).2.configFileOutput = out ++ [L '\n'] ++ [L '#'] := by
  have hzero : (L '#' != 0 && L '#' != weof) = true := by decide
  have hflush : s.flush (Args.remove k) = s.put [L '\n', L '#'] := by
    rw [flush_eq, hch, htc, hm]
    simp [Args.updateConfigFile, Args.remove, hzero]
  have heq : newLine (Args.remove k) s = (.reading .comment, s.put [L '\n', L '#']) := by
    have hput : (s.put [L '\n', L '#']).ch = L '#' := hch
    simp [newLine, htc, newLineLoop, hflush, hput]
  have hout : (s.put [L '\n', L '#']).configFileOutput = out ++ [L '\n'] ++ [L '#'] := by
    rw [← ho]
    simp [State.put]
  rw [heq]
  refine ⟨⟨⟨hl, rfl, hr⟩, he, ?_, trivial, trivial, ?_, ?_⟩, hout⟩
  · rw [hout, after_append, hread]
    rfl
  · intro hkl
    exact absurd hkl (by simp [inKeyLine])
  · rw [hout]
    have hne : L '\r' ≠ L '\n' ∧ L '\r' ≠ L '#' := by decide
    simp [hnr, hne]

def Reader.valueAt (r : Reader) (name : List UInt8) (q : Bool) : Prop :=
  (r.phase = .valueSpace name ∧ q = false) ∨ ∃ kp b, r.phase = .value name kp b q

variable {name : List UInt8} {q : Bool}

theorem valueAt_next (h : r.valueAt name q) (he : isEol c = false)
    (hh : ¬ (c = L '#' ∧ !q)) : (r.next c).sect = r.sect ∧
      if c = L '"' then (r.next c).valueAt name (!q)
      else if c = L '\\' then ∃ v, (r.next c).phase = .escape name v q
      else (r.next c).valueAt name q := by
  have hvalue : ∀ (p : Phase) (kp b : List UInt8),
      (nextValue ⟨r.sect, p⟩ name kp b q c).sect = r.sect ∧
      if c = L '"' then (nextValue ⟨r.sect, p⟩ name kp b q c).valueAt name (!q)
      else if c = L '\\' then ∃ v, (nextValue ⟨r.sect, p⟩ name kp b q c).phase = .escape name v q
      else (nextValue ⟨r.sect, p⟩ name kp b q c).valueAt name q := by
    intro p kp b
    unfold nextValue
    rw [if_neg (by simp [he])]
    split
    · exact ⟨rfl, .inr ⟨_, _, rfl⟩⟩
    split
    · exact ⟨rfl, _, rfl⟩
    split
    · exact ⟨rfl, .inr ⟨_, _, rfl⟩⟩
    · exact ⟨rfl, .inr ⟨_, _, rfl⟩⟩
  obtain ⟨sect, phase⟩ := r
  rcases h with ⟨rfl, rfl⟩ | ⟨kp, b, rfl⟩
  · by_cases hsp : isHSpace c = true
    · have hn : Reader.next ⟨sect, .valueSpace name⟩ c = ⟨sect, .valueSpace name⟩ := by
        simp [Reader.next, hsp]
      have hne : c ≠ L '"' ∧ c ≠ L '\\' := by
        rcases (isHSpace_iff c).mp hsp with rfl | rfl <;> decide
      rw [hn, if_neg hne.1, if_neg hne.2]
      exact ⟨rfl, .inl ⟨rfl, rfl⟩⟩
    · have hn : Reader.next ⟨sect, .valueSpace name⟩ c =
          nextValue ⟨sect, .valueSpace name⟩ name [] [] false c := by simp [Reader.next, hsp]
      rw [hn]
      exact hvalue _ [] []
  · exact hvalue _ kp b

theorem valueAt_end (h : r.valueAt name q) :
    r.next (L '\n') = ⟨r.sect, .lineStart⟩ ∧ (q = false → r.next (L '#') = ⟨r.sect, .comment⟩) := by
  obtain ⟨sect, phase⟩ := r
  rcases h with ⟨rfl, rfl⟩ | ⟨kp, b, rfl⟩
  · exact ⟨rfl, fun _ => rfl⟩
  · refine ⟨rfl, ?_⟩
    rintro rfl
    rfl

def AfterRemoval (k : ConfigKey) (y : Status × State) (r : Reader) (out : List WChar) : Prop :=
  Removing k y r out ∨
    (Mirrors k y r ∧ start.emits y.2.configFileOutput = start.emits (out ++ [L '\n']))

theorem Removing.of_valueAt (name : List UInt8) {y : Status × State} {r' : Reader}
    (hx : Removing k x r out) (hn : r.valueName = some (cstr (r.qualify name)))
    (hsect : r'.sect = r.sect) (hat : r'.valueAt name q) (hsite : y.1 = .reading .value)
    (hq : y.2.inQuote = q) (hl : y.2.sectionLength = x.2.sectionLength) (hk : y.2.key = x.2.key)
    (ht : y.2.trailingComment = x.2.trailingComment)
    (hf : y.2.firstMatchedKey = x.2.firstMatchedKey) (hm : y.2.matchedKey = x.2.matchedKey)
    (he : y.2.eof = x.2.eof) (ho : y.2.configFileOutput = x.2.configFileOutput) : Removing k y r' out := by
  have hname := hx.name
  rw [hn] at hname
  have hq' : r'.qualify name = r.qualify name := by simp [qualify, hsect]
  refine ⟨?_, ?_, ?_, ?_, ht.trans hx.trailing, hf.trans hx.first, hm.trans hx.matched,
    he.trans hx.eof, ho.trans hx.output, ?_, hx.noReturn⟩
  · rcases hat with ⟨hp, rfl⟩ | ⟨kp, b, hp⟩ <;> rw [hp] <;> exact ⟨hsite, hq⟩
  · rcases hat with ⟨hp, -⟩ | ⟨kp, b, hp⟩ <;> simpa [valueName, hp, hq'] using hname
  · rw [hl, hx.length, hsect]
  · rw [hk, hl, hx.key, hsect]
  · rw [hx.reader, hsect]

theorem valueNext_eq (s : State) : ∃ n, valueNext s = (.reading .value, { s with trimmedLength := n }) := by
  unfold valueNext
  split
  · exact ⟨s.trimmedLength, rfl⟩
  · exact ⟨s.value.length, rfl⟩

section

variable (hx : Removing k x r out)
include hx

theorem step_removing_value
    (hat : r.valueAt name q) (hcr : c ≠ L '\r') (hw : c ≠ weof) :
    AfterRemoval k (step (Args.remove k) x c) (r.next c) out := by
  obtain ⟨st, s⟩ := x
  obtain ⟨hsite, hq⟩ : st = .reading .value ∧ s.inQuote = q := by
    have := hx.site
    rcases hat with ⟨hp, rfl⟩ | ⟨kp, b, hp⟩ <;> rw [hp] at this <;> exact this
  have hn : r.valueName = some (cstr (r.qualify name)) := by
    rcases hat with ⟨hp, -⟩ | ⟨kp, b, hp⟩ <;> simp [valueName, hp]
  subst hsite
  have hf := hx.first
  have hm := hx.matched
  simp only at hf hm
  change AfterRemoval k (valueLoop (Args.remove k) (s.fetch c)) (r.next c) out
  by_cases hnl : c = L '\n'
  · subst hnl
    obtain ⟨y, hy, hch, he, hl, hk, ht, -, ho⟩ :=
      valueDone_removing (k := k) (s := s.fetch (L '\n')) hf hm
    have hloop : valueLoop (Args.remove k) (s.fetch (L '\n')) =
        valueDone (Args.remove k) (s.fetch (L '\n')) := by simp [valueLoop, State.fetch]
    obtain ⟨h1, h2⟩ := newLine_removing (k := k) (s := y) r.sect hch (ht.trans hx.trailing)
      (he.trans hx.eof) (hl.trans hx.length) (by rw [hk, hl]; exact hx.key) (ho.trans hx.output)
      hx.reader hx.noReturn
    rw [(valueAt_end hat).1, hloop, hy]
    exact .inr ⟨h1, by rw [h2]⟩
  have heol : isEol c = false := by simp [isEol, hnl, hw]
  by_cases hhash : c = L '#' ∧ !q
  · obtain ⟨rfl, hq'⟩ := hhash
    have hqf : q = false := by simpa using hq'
    subst hqf
    obtain ⟨y, hy, hch, he, hl, hk, ht, hmy, ho⟩ := valueDone_removing (k := k)
      (s := { s.fetch (L '#') with trailingComment := true }) hf hm
    have h1 : L '#' ≠ L '"' ∧ L '#' ≠ L '\\' := by decide
    have hloop : valueLoop (Args.remove k) (s.fetch (L '#')) =
        valueDone (Args.remove k) { s.fetch (L '#') with trailingComment := true } := by
      simp [valueLoop, State.fetch, hcr, hw, hnl, hm, hq, h1]
    obtain ⟨h1, h2⟩ := newLine_removing_hash (k := k) (s := y) r.sect hch ht hmy
      (he.trans hx.eof) (hl.trans hx.length) (by rw [hk, hl]; exact hx.key) (ho.trans hx.output)
      hx.reader hx.noReturn
    rw [(valueAt_end hat).2 rfl, hloop, hy]
    refine .inr ⟨h1, ?_⟩
    rw [h2, emits_append, hx.reader, emits_cons, emit_of_pending rfl]
    simp
  · obtain ⟨hsect, hnext⟩ := valueAt_next hat heol hhash
    by_cases hquote : c = L '"'
    · subst hquote
      obtain ⟨n, hnx⟩ := valueNext_eq { s.fetch (L '"') with inQuote := !q }
      have heq : valueLoop (Args.remove k) (s.fetch (L '"')) = (.reading .value,
          { s.fetch (L '"') with inQuote := !q, trimmedLength := n }) := by
        rw [← hnx]
        simp [valueLoop, State.fetch, hcr, hw, hnl, hm, hq]
      rw [if_pos rfl] at hnext
      rw [heq]
      exact .inl (hx.of_valueAt name hn hsect hnext rfl rfl rfl rfl rfl rfl rfl rfl rfl)
    rw [if_neg hquote] at hnext
    by_cases hslash : c = L '\\'
    · subst hslash
      rw [if_pos rfl] at hnext
      obtain ⟨v, hv⟩ := hnext
      have heq : valueLoop (Args.remove k) (s.fetch (L '\\')) =
          (.reading .escape, s.fetch (L '\\')) := by
        simp [valueLoop, State.fetch, hcr, hw, hnl, hm, hquote]
      have hname := hx.name
      rw [hn] at hname
      have hq' : (r.next (L '\\')).qualify name = r.qualify name := by simp [qualify, hsect]
      rw [heq]
      refine .inl ⟨?_, ?_, ?_, ?_, hx.trailing, hx.first, hx.matched, hx.eof, hx.output, ?_,
        hx.noReturn⟩
      · rw [hv]
        exact ⟨rfl, hq, rfl⟩
      · simpa [valueName, hv, hq'] using hname
      · rw [hsect]
        exact hx.length
      · rw [hsect]
        exact hx.key
      · rw [hx.reader, hsect]
    · rw [if_neg hslash] at hnext
      obtain ⟨n, hnx⟩ := valueNext_eq ((s.fetch c).push (narrow c))
      have heq : valueLoop (Args.remove k) (s.fetch c) = (.reading .value,
          { (s.fetch c).push (narrow c) with trimmedLength := n }) := by
        rw [← hnx]
        simp only [not_eq_true'] at hhash
        simp [valueLoop, State.fetch, hcr, hw, hnl, hm, hq, hquote, hslash, hhash]
      rw [heq]
      exact .inl (hx.of_valueAt name hn hsect hnext rfl hq rfl rfl rfl rfl rfl rfl rfl)

theorem step_removing_escape {name value : List UInt8}
    (hp : r.phase = .escape name value q) (hcr : c ≠ L '\r') :
    AfterRemoval k (step (Args.remove k) x c) (r.next c) out := by
  obtain ⟨st, s⟩ := x
  obtain ⟨sect, phase⟩ := r
  simp only at hp
  subst hp
  obtain ⟨rfl, hq, hch⟩ := hx.site
  have hm := hx.matched
  have hf := hx.first
  simp only at hf hm
  have hecho : s.escapeEcho (Args.remove k) c = [] := by simp [State.escapeEcho, hm]
  have hput : s.put [] = s := by simp [State.put]
  change AfterRemoval k (onEscape (Args.remove k) s c) _ out
  cases he : escapeText c with
  | some bs =>
    obtain ⟨n, heq⟩ := onEscape_some (a := Args.remove k) hch hcr he
    have hn : Reader.next ⟨sect, .escape name value q⟩ c =
        ⟨sect, .value name (value ++ bs) [] q⟩ := by simp [Reader.next, he]
    rw [hecho, hput] at heq
    rw [hn, heq]
    exact .inl (hx.of_valueAt name rfl rfl (.inr ⟨_, _, rfl⟩) rfl hq rfl rfl rfl rfl rfl
      rfl rfl)
  | none =>
    have hgo : L '\\' ≠ weof ∧ L '\\' ≠ L '\n' := by decide
    have hn : Reader.next ⟨sect, .escape name value q⟩ c = ⟨sect, .invalid⟩ := by
      simp [Reader.next, he]
    have heq : onEscape (Args.remove k) s c =
        (.reading .invalidLine, s.warn (.invalidEscape c s.line)) := by
      have hch' : (s.warn (.invalidEscape c s.line)).ch = L '\\' := hch
      rw [onEscape_none hcr he, hecho, hput, hf]
      simp [invalidLine, Args.remove, hch', hgo]
    rw [hn, heq]
    exact .inl ⟨rfl, rfl, hx.length, hx.key, hx.trailing, hf, hm, hx.eof, hx.output, hx.reader,
      hx.noReturn⟩

theorem step_removing_invalid (hp : r.phase = .invalid) :
    AfterRemoval k (step (Args.remove k) x (L '\n')) (r.next (L '\n')) out := by
  obtain ⟨st, s⟩ := x
  obtain ⟨sect, phase⟩ := r
  simp only at hp
  subst hp
  obtain rfl : st = .reading .invalidLine := hx.site
  change AfterRemoval k (onInvalidLine (Args.remove k) (s.fetch (L '\n'))) ⟨sect, .lineStart⟩ out
  have heq : onInvalidLine (Args.remove k) (s.fetch (L '\n')) =
      newLine (Args.remove k) (s.fetch (L '\n')) := by simp [onInvalidLine, State.fetch]
  obtain ⟨h1, h2⟩ := newLine_removing (k := k) (s := s.fetch (L '\n')) sect rfl hx.trailing
    hx.eof hx.length hx.key hx.output hx.reader hx.noReturn
  rw [heq]
  exact .inr ⟨h1, by rw [h2]⟩

theorem step_removing (hcr : c ≠ L '\r') (hw : c ≠ weof)
    (hinv : r.phase = .invalid → c = L '\n') : AfterRemoval k (step (Args.remove k) x c) (r.next c) out := by
  cases hp : r.phase with
  | valueSpace name => exact step_removing_value hx (.inl ⟨hp, rfl⟩) hcr hw
  | value name kp b q => exact step_removing_value hx (.inr ⟨kp, b, hp⟩) hcr hw
  | escape name value q => exact step_removing_escape hx hp hcr
  | invalid =>
    obtain rfl := hinv hp
    exact step_removing_invalid hx hp
  | _ =>
    have hsite := hx.site
    rw [hp] at hsite
    exact absurd hsite (by simp)

theorem invalid_next (hw : c ≠ weof)
    (hinv : r.phase = .invalid → c = L '\n') (hn : (r.next c).phase = .invalid) :
    r.inEscape = true ∧ escapeText c = none := by
  have hsite := hx.site
  have hvalue : ∀ name q, r.valueAt name q → False := by
    intro name q hat
    by_cases hnl : c = L '\n'
    · subst hnl
      rw [(valueAt_end hat).1] at hn
      exact absurd hn (by simp)
    by_cases hhash : c = L '#' ∧ !q
    · obtain ⟨rfl, hq⟩ := hhash
      rw [(valueAt_end hat).2 (by simpa using hq)] at hn
      exact absurd hn (by simp)
    · obtain ⟨-, hnext⟩ := valueAt_next hat (by simp [isEol, hnl, hw]) hhash
      split at hnext
      · rcases hnext with ⟨h, -⟩ | ⟨_, _, h⟩ <;> exact absurd (h.symm.trans hn) (by simp)
      split at hnext
      · obtain ⟨v, h⟩ := hnext
        exact absurd (h.symm.trans hn) (by simp)
      · rcases hnext with ⟨h, -⟩ | ⟨_, _, h⟩ <;> exact absurd (h.symm.trans hn) (by simp)
  obtain ⟨sect, phase⟩ := r
  cases phase with
  | valueSpace name => exact (hvalue name false (.inl ⟨rfl, rfl⟩)).elim
  | value name kp b q => exact (hvalue name q (.inr ⟨kp, b, rfl⟩)).elim
  | escape name value q =>
    refine ⟨rfl, ?_⟩
    cases he : escapeText c with
    | none => rfl
    | some bs => simp [Reader.next, he] at hn
  | invalid =>
    obtain rfl := hinv rfl
    exact absurd hn (by simp [Reader.next, isEol])
  | _ => exact absurd hsite (by simp)

end

theorem checkEof_remove (he : s.eof = true) : checkEof (Args.remove k) s = (.done 0, s) := by
  simp [checkEof, he, unwritten_remove]

theorem finish_removing (hx : Removing k x r out) : (finish (Args.remove k) x).2.configFileOutput = out := by
  obtain ⟨st, s⟩ := x
  have hf := hx.first
  have hm := hx.matched
  have hsite := hx.site
  simp only at hf hm
  have hvalue : st = .reading .value → (finish (Args.remove k) (st, s)).2.configFileOutput = out := by
    rintro rfl
    obtain ⟨y, hy, hch, he, -, -, ht, -, ho⟩ := valueDone_removing (k := k)
      (s := { s with eof := true, ch := weof }) hf hm
    have hloop : valueLoop (Args.remove k) { s with eof := true, ch := weof } =
        valueDone (Args.remove k) { s with eof := true, ch := weof } := by simp [valueLoop]
    have hread : readEof (Args.remove k) (.reading .value, s) =
        checkEof (Args.remove k) { y with line := y.line + 1 } :=
      hloop.trans (hy.trans (newLine_weof hch (ht.trans hx.trailing)))
    have hdone : checkEof (Args.remove k) { y with line := y.line + 1 } =
        (.done 0, { y with line := y.line + 1 }) := checkEof_remove he
    have hfin : finish (Args.remove k) (.reading .value, s) =
        checkEof (Args.remove k) { y with line := y.line + 1 } := finish_of_readEof he hread
    rw [hfin, hdone]
    exact ho.trans hx.output
  obtain ⟨sect, phase⟩ := r
  cases phase with
  | valueSpace name => exact hvalue hsite.1
  | value name kp b q => exact hvalue hsite.1
  | escape name value q =>
    obtain ⟨rfl, -, hch⟩ := hsite
    have hgo : L '\\' ≠ weof ∧ L '\\' ≠ L '\n' := by decide
    have hread : readEof (Args.remove k) (.reading .escape, s) = (.reading .invalidLine,
        ({ s with eof := true }).warn (.invalidEscape weof s.line)) := by
      change onEscape (Args.remove k) { s with eof := true } weof = _
      have hch' : s.ch = L '\\' := hch
      rw [onEscape_none (by decide) (by decide)]
      simp [State.escapeEcho, State.put, State.warn, invalidLine, Args.remove, hf, hch', hgo]
    have hread2 := readEof_invalid (a := Args.remove k)
      (s := ({ s with eof := true }).warn (.invalidEscape weof s.line)) hx.trailing
    rw [finish_of_readEof_readEof rfl (by rw [hread, hread2]), checkEof_remove rfl]
    exact hx.output
  | invalid =>
    obtain rfl : st = .reading .invalidLine := hsite
    rw [finish_of_readEof rfl (readEof_invalid hx.trailing), checkEof_remove rfl]
    exact hx.output
  | _ => exact absurd hsite (by simp)

def State.cut (s : State) (out : List WChar) : State :=
  { s with firstMatchedKey := false, matchedKey := true, value := [], trimmedLength := 0,
           inQuote := false, configFileOutput := out }

theorem enter_removing (hk : k.wellFormed) (hx : Mirrors k x r) (hat : r.atKey k c = true) :
    ∃ out, Removing k (.reading .value, x.2.cut out) r out ∧
      start.emits (out ++ [L '\n']) = start.emits x.2.configFileOutput ∧
      ∀ eof, step (Args.remove k) (x.1, { x.2 with eof := eof }) c =
        step (Args.remove k) (.reading .value, { x.2.cut out with eof := eof }) c := by
  obtain ⟨name, hphase, hmatch⟩ := atKey_phase hat
  have hsect := sect_of_atKey hk hx.plain hat
  obtain ⟨out, b, ho, hb, hread, hemits⟩ := hx.anchor (by simp [inKeyLine, hphase]) hsect
  obtain ⟨st, s⟩ := x
  obtain ⟨sect, phase⟩ := r
  simp only at hphase ho
  subst hphase
  obtain ⟨hl, rfl, htc, hkey⟩ := hx.tracks
  simp only at hl hkey
  have hsp : isHSpace c = false := by
    simp only [atKey, and_eq_true, not_eq_true'] at hat
    exact hat.1
  refine ⟨out, ⟨⟨rfl, rfl⟩, ?_, hl, ?_, htc, rfl, rfl, hx.eof, rfl, hread, ?_⟩, hemits, ?_⟩
  · have hm : k.matches (cstr (qualify ⟨sect, .valueSpace name⟩ name)) = true := hmatch
    simpa [valueName] using hm
  · change resize s.key s.sectionLength = sect
    rw [hl, hkey, resize_qualify]
  · intro h
    have hnr := hx.noReturn
    simp only [ho] at hnr
    exact hnr (mem_append_left _ h)
  · intro eof
    change onValueSpace _ (State.fetch { s with eof := eof } c) =
      valueLoop _ (State.fetch { s.cut out with eof := eof } c)
    have hmatch' : k.matches (cstr s.key) = true := by
      rw [hkey]
      exact hmatch
    have hdrop : dropLastLine s.configFileOutput = out := by rw [ho, dropLastLine_append hb]
    simp [onValueSpace, beginValue, State.fetch, State.cut, State.unwritten, Args.remove,
      Args.updateConfigFile, hsp, hmatch', hdrop]

end Removal

section Run

/-- Text follows a malformed escape in a value of the key; the machine writes
it after the line before. -/
def Reader.spills (k : ConfigKey) (r : Reader) : List WChar → Bool
  | [] => false
  | c :: text =>
    r.inEscape && r.valueName.any k.matches && (escapeText c).isNone &&
        text.headD (L '\n') != L '\n' ||
      (r.next c).spills k text

/-- No line is cut off, no quoted `#` of another value is dropped, nothing spills. -/
def removeSafe (k : ConfigKey) (text : List WChar) : Bool :=
  start.whole text && start.unquoted (others k) text && !start.spills k text

def removedOf (k : ConfigKey) (x : Status × State) (text : List WChar) : List WChar :=
  (finish (Args.remove k) (scan (Args.remove k) x text)).2.configFileOutput

theorem removedOf_cons (k : ConfigKey) (x : Status × State) (c : WChar) (text : List WChar) :
    removedOf k x (c :: text) = removedOf k (step (Args.remove k) x c) text := rfl

def Reads (k : ConfigKey) (x : Status × State) (text : List WChar) (before after : List Pair) : Prop :=
  start.reports (removedOf k x text) = before ++ kept (others k) after ∧ L '\r' ∉ removedOf k x text

theorem reads_removing_nil (hx : Removing k x r out) :
    Reads k x [] (start.emits (out ++ [L '\n'])) (r.reports []) := by
  have hout : removedOf k x [] = out := finish_removing hx
  have hemit : (start.after out).emit (L '\n') = (start.after out).pending.toList := by
    simp [emit, isEol]
  refine ⟨?_, by rw [hout]; exact hx.noReturn⟩
  rw [hout, reports_nil, hx.pending, append_nil, emits_append, emits_cons, hemit, reports]
  simp

theorem reads_mirrors_nil (hk : k.wellFormed) (hx : Mirrors k x r) :
    Reads k x [] (start.emits x.2.configFileOutput) (r.reports []) := by
  cases hat : r.atKey k weof with
  | true =>
    obtain ⟨out, hrem, hemits, henter⟩ := enter_removing hk hx hat
    have hread : readEof (Args.remove k) x =
        readEof (Args.remove k) (.reading .value, x.2.cut out) := henter true
    have heq : removedOf k x [] = removedOf k (.reading .value, x.2.cut out) [] := by
      change (finish _ x).2.configFileOutput = (finish _ (.reading .value, x.2.cut out)).2.configFileOutput
      rw [finish, finish, hread]
    have hnil := reads_removing_nil hrem
    rw [Reads, heq, ← hemits]
    exact hnil
  | false =>
    have hq : QuietEof (Args.remove k) x.2 r := by
      intro name hp
      rw [unwritten_remove, atKey_eq_remove (c := weof) hx.tracks hp (by decide), hat]
      exact ⟨rfl, by simp⟩
    obtain ⟨y, hy, hends⟩ := finish_follows rfl hq hx.tracks
    have hfin : finish (Args.remove k) x = checkEof (Args.remove k) y := hy
    have hout : removedOf k x [] = x.2.configFileOutput ++
        if r.cutOff weof then [weof] else [] := by
      change (finish (Args.remove k) x).2.configFileOutput = _
      rw [hfin, checkEof_remove hends.eof, hends.output]
      rfl
    have hmark : L '\r' ∉ (if r.cutOff weof then [weof] else []) := by
      have hne : L '\r' ≠ weof := by decide
      split <;> simp [hne]
    rw [Reads, hout]
    refine ⟨?_, by simp [hx.noReturn, hmark]⟩
    rw [reports_append, hx.reader, reports_eofMark, reports_nil,
      kept_others_of_names (clear_pending hx.clear hat)]

theorem valueName_of_inEscape (h : r.inEscape = true) : ∃ n, r.valueName = some n := by
  obtain ⟨sect, phase⟩ := r
  cases phase with
  | escape name value q => exact ⟨_, rfl⟩
  | _ => exact absurd h (by simp [inEscape])

theorem reads_run (hk : k.wellFormed) (hw : r.whole text = true)
    (hu : r.unquoted (others k) text = true) (hs : r.spills k text = false) :
    (∀ x, Mirrors k x r → Reads k x text (start.emits x.2.configFileOutput) (r.reports text)) ∧
    (∀ x out, Removing k x r out → (r.phase = .invalid → text.headD (L '\n') = L '\n') →
      Reads k x text (start.emits (out ++ [L '\n'])) (r.reports text)) := by
  induction text generalizing r with
  | nil => exact ⟨fun x hx => reads_mirrors_nil hk hx, fun x out hx _ => reads_removing_nil hx⟩
  | cons c text ih =>
    simp only [whole, and_eq_true, bne_iff_ne, not_eq_true'] at hw
    obtain ⟨⟨⟨hcr, heof⟩, hcut⟩, hw⟩ := hw
    simp only [unquoted, and_eq_true, not_eq_true'] at hu
    obtain ⟨hq, hu⟩ := hu
    rw [spills, or_eq_false_iff] at hs
    obtain ⟨hs, hss⟩ := hs
    obtain ⟨ihm, ihr⟩ := ih hw hu hss
    have hrem : ∀ x out, Removing k x r out → (r.phase = .invalid → c = L '\n') →
        Reads k x (c :: text) (start.emits (out ++ [L '\n'])) (r.reports (c :: text)) := by
      intro x out hx hinv
      rw [Reads, removedOf_cons, reports_cons, kept_append, hx.emit, nil_append]
      rcases step_removing hx hcr heof hinv with hy | ⟨hy, hemits⟩
      · refine ihr _ out hy fun hn => ?_
        obtain ⟨hesc, hnone⟩ := invalid_next hx heof hinv hn
        have hany : r.valueName.any k.matches = true := by
          have hall := hx.name
          obtain ⟨n, hv⟩ := valueName_of_inEscape hesc
          simpa [hv] using hall
        simpa [hesc, hany, hnone] using hs
      · rw [← hemits]
        exact ihm _ hy
    refine ⟨fun x hx => ?_, fun x out hx hinv => hrem x out hx (by simpa using hinv)⟩
    cases hat : r.atKey k c with
    | true =>
      obtain ⟨out, hx', hemits, henter⟩ := enter_removing hk hx hat
      obtain ⟨name, hphase, -⟩ := atKey_phase hat
      have hstep := henter false
      have he1 : ({ x.2 with eof := false } : State) = x.2 := by rw [← hx.eof]
      have he2 : ({ x.2.cut out with eof := false } : State) = x.2.cut out := by
        rw [State.cut, hx.eof]
      rw [he1, he2] at hstep
      have hr := hrem _ out hx' (by simp [hphase])
      rw [Reads, removedOf_cons] at hr ⊢
      rw [← hemits]
      change start.reports (removedOf k (step (Args.remove k) (x.1, x.2) c) text) = _ ∧
        L '\r' ∉ removedOf k (step (Args.remove k) (x.1, x.2) c) text
      rw [hstep]
      exact hr
    | false =>
      obtain ⟨hy, hemits⟩ := step_mirrors hx hcr heof hcut hq hat
      have hr := ihm _ hy
      rw [Reads, removedOf_cons, reports_cons, kept_append, ← append_assoc, ← hemits]
      exact hr

theorem parse_remove (hk : k.wellFormed) (hcr : L '\r' ∉ text) (hs : removeSafe k text = true) :
    parse (remove k text) = kept (others k) (parse text) := by
  simp only [removeSafe, and_eq_true, not_eq_true'] at hs
  obtain ⟨⟨hw, hu⟩, hsp⟩ := hs
  have hinit := (tracks_newLine (Args.remove k)).2
  obtain ⟨hreads, hnr⟩ := (reads_run hk hw hu hsp).1 _ (mirrors_start k)
  have hremove : remove k text = removedOf k (newLine (Args.remove k) State.initial) text := rfl
  rw [hremove, parse_eq_reports hnr, hreads, parse_eq_reports hcr, hinit]
  rfl

theorem remove_exact (hk : k.wellFormed) (hcr : L '\r' ∉ text) (hs : removeSafe k text = true) :
    (∀ p ∈ parse (remove k text), k.matches p.1 = false) ∧
      ∀ name, k.matches name = false →
        valuesOf name (parse (remove k text)) = valuesOf name (parse text) := by
  rw [parse_remove hk hcr hs]
  refine ⟨fun p hp => ?_, fun name hname => ?_⟩
  · have h := (mem_filter.mp hp).2
    simpa [others] using h
  · exact valuesOf_kept (by simp [others, hname]) _

theorem remove_exact_memory :
    let k : ConfigKey := ⟨[bytes "wsl2.memory"], []⟩
    ∀ text ∈ [wide "[wsl2]\nmemory=4GB # half\nswap=0\n", wide "[wsl2]\nmemory=\"1\\\n2\nswap=0",
        wide "[wsl2]\nswap=0\nmemory=4GB\\x"],
      (∀ p ∈ parse (remove k text), k.matches p.1 = false) ∧
        ∀ name, k.matches name = false →
          valuesOf name (parse (remove k text)) = valuesOf name (parse text) := by
  intro k text htext
  have hsafe : L '\r' ∉ text ∧ removeSafe k text = true := by
    revert text
    decide
  exact remove_exact (wellFormed_memory _) hsafe.1 hsafe.2

/-- The text after a malformed escape lands behind the header, which is then
no header any more. -/
theorem remove_exact_malformed :
    ¬ ∀ (k : ConfigKey) (text : List WChar), k.wellFormed → L '\r' ∉ text →
      (∀ p ∈ parse (remove k text), k.matches p.1 = false) ∧
        ∀ name, k.matches name = false →
          valuesOf name (parse (remove k text)) = valuesOf name (parse text) := by
  intro h
  have hbad := (h ⟨[bytes "wsl2.memory"], []⟩ (wide "[wsl2]\nmemory=1\\x foo\nswap=0\n")
    (wellFormed_memory _) (by decide)).2 (bytes "wsl2.swap") (by rfl)
  exact absurd hbad (by decide)

end Run

end WslPlus.ConfigFile
