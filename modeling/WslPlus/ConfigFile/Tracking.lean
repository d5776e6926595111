import WslPlus.ConfigFile.Reader

/-!
# The machine follows the reader

In parse mode always, and in update mode as long as no line is cut off and the
key to be written is not met: the machine sits at the reader's phase, reports
the reader's settings and, in update mode, has written out what it read.
-/

namespace WslPlus.ConfigFile

open List Reader

def pairsOf (settings : List Setting) : List Pair := settings.map fun s => (s.name, s.value)

/-- The newline comes where a header or a name still needs a character. In
update mode the machine then takes the next line for the rest of this one. -/
def Reader.cutOff (r : Reader) (c : WChar) : Bool :=
  match r.phase with
  | .sectionFirst | .sectionName _ | .keyName _ | .keySpace _ => isEol c
  | _ => false

/-- A `#` between quotes: the one character update mode does not write out. -/
def Reader.quotedHash (r : Reader) (c : WChar) : Bool :=
  match r.phase with
  | .value _ _ _ inQuote => inQuote && c == L '#'
  | _ => false

def Reader.inHeaderTail (r : Reader) : Bool :=
  match r.phase with
  | .sectionSpace _ => true
  | _ => false

def written (a : Args) (s : State) (r : Reader) (c : WChar) : List WChar :=
  if !a.updateConfigFile || r.quotedHash c then []
  else if s.matchedKey && r.inHeaderTail && c == L '#' then [L '\n', c]
  else [c]

def Tracks (x : Status × State) (r : Reader) : Prop :=
  x.2.sectionLength = r.sect.length ∧
  match r.phase with
  | .lineStart => x.1 = .reading .leadingSpace ∧ x.2.trailingComment = false ∧
      resize x.2.key x.2.sectionLength = r.sect
  | .comment => x.1 = .reading .comment ∧ resize x.2.key x.2.sectionLength = r.sect
  | .invalid => x.1 = .reading .invalidLine ∧ x.2.trailingComment = false ∧
      resize x.2.key x.2.sectionLength = r.sect
  | .sectionFirst => x.1 = .reading .sectionFirst ∧ x.2.trailingComment = false ∧
      resize x.2.key x.2.sectionLength = r.sect
  | .sectionName name => x.1 = .reading .sectionName ∧ x.2.trailingComment = false ∧
      x.2.key = name
  | .sectionSpace name => x.1 = .reading .sectionSpace ∧ x.2.trailingComment = false ∧
      x.2.key = name
  | .keyName name => x.1 = .reading .keyName ∧ x.2.trailingComment = false ∧
      x.2.key = r.qualify name
  | .keySpace name => x.1 = .reading .keySpace ∧ x.2.trailingComment = false ∧
      x.2.key = r.qualify name
  | .valueSpace name => x.1 = .reading .valueSpace ∧ x.2.trailingComment = false ∧
      x.2.key = r.qualify name
  | .value name kept blanks inQuote => x.1 = .reading .value ∧ x.2.trailingComment = false ∧
      x.2.key = r.qualify name ∧ x.2.value = kept ++ blanks ∧
      x.2.trimmedLength = kept.length ∧ x.2.inQuote = inQuote ∧
      x.2.firstMatchedKey = false ∧ x.2.matchedKey = false
  | .escape name value inQuote => x.1 = .reading .escape ∧ x.2.trailingComment = false ∧
      x.2.key = r.qualify name ∧ x.2.value = value ∧ x.2.inQuote = inQuote ∧
      x.2.ch = L '\\' ∧ x.2.firstMatchedKey = false ∧ x.2.matchedKey = false

/-- One step of the machine beside one step of the reader. -/
structure Follows (a : Args) (s : State) (r : Reader) (c : WChar) (y : Status × State) : Prop where
  tracks : Tracks y (r.next c)
  eof : y.2.eof = false
  updated : y.2.outputKeyValueUpdated = s.outputKeyValueUpdated
  matched : y.2.matchedKey = true → s.matchedKey = true
  pairs : pairsOf y.2.settings = pairsOf s.settings ++ r.emit c
  output : y.2.configFileOutput = s.configFileOutput ++ written a s r c

theorem isEol_iff (c : WChar) : isEol c = true ↔ c = L '\n' ∨ c = weof := by simp [isEol]

theorem isHSpace_iff (c : WChar) : isHSpace c = true ↔ c = L ' ' ∨ c = L '\t' := by simp [isHSpace]

def State.isKey (a : Args) (s : State) : Bool :=
  a.outputKey.elim false fun k => k.matches (cstr s.key)

/-- No carriage return, nothing cut off, and the key to be written not met. -/
structure Quiet (a : Args) (s : State) (r : Reader) (c : WChar) : Prop where
  skip : a.skipInvalidLines = true
  eof : s.eof = false
  noReturn : c ≠ L '\r'
  whole : a.updateConfigFile = true → c ≠ weof ∧ r.cutOff c = false
  noInsert : r.phase = .lineStart → c = L '[' →
    insertBeforeSection a (s.fetch c) = some (s.fetch c)
  noMatch : ∀ name, r.phase = .valueSpace name → isHSpace c = false →
    (s.unwritten a && s.isKey a) = false ∧ (a.updateConfigFile && a.removeKey && s.isKey a) = false

/-- What the code between two reads leaves alone, up to its closing writes. -/
structure Kept (s s' : State) (c : WChar) : Prop where
  ch : s'.ch = c
  eof : s'.eof = false
  updated : s'.outputKeyValueUpdated = s.outputKeyValueUpdated
  matched : s'.matchedKey = true → s.matchedKey = true
  output : s'.configFileOutput = s.configFileOutput

variable {a : Args} {s s' : State} {r : Reader} {c : WChar} {st : Status} {site : Site}

theorem Quiet.not_update (h : Quiet a s r weof) : a.updateConfigFile = false := by
  cases hu : a.updateConfigFile with
  | false => rfl
  | true => exact absurd rfl (h.whole hu).1

theorem emit_eq_nil (he : isEol c = false) (hc : c ≠ L '#') : r.emit c = [] := by
  simp [emit, he, hc]

theorem emit_of_pending (hp : r.pending = none) : r.emit c = [] := by
  simp [emit, hp]

theorem quotedHash_eq_false (hc : c ≠ L '#') : r.quotedHash c = false := by
  unfold quotedHash
  split <;> simp [hc]

theorem written_eq (hq : r.quotedHash c = false) (hh : (r.inHeaderTail && c == L '#') = false) :
    written a s r c = if a.updateConfigFile then [c] else [] := by
  unfold written
  cases hu : a.updateConfigFile
  · simp
  · simp only [Bool.and_assoc, hh, hq]
    simp

theorem written_of_ne (hc : c ≠ L '#') : written a s r c = if a.updateConfigFile then [c] else [] :=
  written_eq (quotedHash_eq_false hc) (by simp [hc])

theorem follows_echo (hk : Kept s s' c) (hs : s'.settings = s.settings) (he : r.emit c = [])
    (hw : written a s r c = if a.updateConfigFile then [c] else [])
    (ht : Tracks (.reading site, s') (r.next c)) : Follows a s r c (.reading site, s'.echo a) := by
  have heq : s'.echo a = s'.put (if a.updateConfigFile then [c] else []) := by
    unfold State.echo
    rw [hk.ch]
    split <;> simp [State.put]
  rw [heq, ← hw]
  refine ⟨ht, hk.eof, hk.updated, hk.matched, ?_, ?_⟩
  · change pairsOf s'.settings = _
    rw [hs, he, append_nil]
  · change s'.configFileOutput ++ _ = _
    rw [hk.output]

theorem flush_eq (a : Args) (s : State) :
    s.flush a = s.put (if a.updateConfigFile && s.ch != 0 && s.ch != weof then
      (if s.trailingComment && s.matchedKey then [L '\n', s.ch] else [s.ch]) else []) := by
  unfold State.flush
  split
  · split <;> simp [State.put]
  · simp [State.put]

theorem follows_lineStart (sect : List UInt8) (h : Quiet a s r c) (hk : Kept s s' c)
    (hc : isEol c = true) (ht : s'.trailingComment = false)
    (hs : pairsOf s'.settings = pairsOf s.settings ++ r.emit c)
    (hn : r.next c = ⟨sect, .lineStart⟩) (hl : s'.sectionLength = sect.length)
    (hr : resize s'.key s'.sectionLength = sect) : Follows a s r c (newLineLoop a s') := by
  have hne : c ≠ L '#' := by
    rintro rfl
    exact absurd hc (by decide)
  have hout : (if a.updateConfigFile && s'.ch != 0 && s'.ch != weof then
      (if s'.trailingComment && s'.matchedKey then [L '\n', s'.ch] else [s'.ch]) else []) =
      written a s r c := by
    rw [written_of_ne hne, hk.ch, ht]
    rcases (isEol_iff c).mp hc with rfl | rfl
    · have hzero : (L '\n' != 0 && L '\n' != weof) = true := by decide
      simp [Bool.and_assoc, hzero]
    · simp [h.not_update]
  have hloop : newLineLoop a s' = (.reading .leadingSpace, s'.put (written a s r c)) := by
    unfold newLineLoop
    rw [flush_eq, hout]
    have hch : ¬ (s'.put (written a s r c)).ch = L '#' := by
      change ¬ s'.ch = L '#'
      rw [hk.ch]
      exact hne
    have he : (s'.put (written a s r c)).eof = false := hk.eof
    simp [hch, checkEof, he]
  rw [hloop]
  refine ⟨?_, hk.eof, hk.updated, hk.matched, hs, ?_⟩
  · rw [hn]
    exact ⟨hl, rfl, ht, hr⟩
  · change s'.configFileOutput ++ _ = _
    rw [hk.output]

theorem newLine_of_not_trailing (ht : s.trailingComment = false) :
    newLine a s = newLineLoop a { s with line := s.line + 1 } := by simp [newLine, ht]

theorem follows_newLine (sect : List UInt8) (h : Quiet a s r c) (hk : Kept s s' c)
    (hc : isEol c = true) (ht : s'.trailingComment = false)
    (hs : pairsOf s'.settings = pairsOf s.settings ++ r.emit c)
    (hn : r.next c = ⟨sect, .lineStart⟩) (hl : s'.sectionLength = sect.length)
    (hr : resize s'.key s'.sectionLength = sect) : Follows a s r c (newLine a s') := by
  rw [newLine_of_not_trailing ht]
  exact follows_lineStart sect h ⟨hk.ch, hk.eof, hk.updated, hk.matched, hk.output⟩ hc ht hs hn hl hr

theorem follows_hash (sect : List UInt8) (hk : Kept s s' (L '#'))
    (hs : pairsOf s'.settings = pairsOf s.settings ++ r.emit (L '#'))
    (hw : written a s r (L '#') = if a.updateConfigFile then
      (if s'.trailingComment && s'.matchedKey then [L '\n', L '#'] else [L '#']) else [])
    (hn : r.next (L '#') = ⟨sect, .comment⟩) (hl : s'.sectionLength = sect.length)
    (hr : resize s'.key s'.sectionLength = sect) : Follows a s r (L '#') (newLineLoop a s') := by
  have hout : s'.flush a = s'.put (written a s r (L '#')) := by
    have hzero : (L '#' != 0 && L '#' != weof) = true := by decide
    rw [flush_eq, hw, hk.ch]
    simp [Bool.and_assoc, hzero]
  have hloop : newLineLoop a s' = (.reading .comment, s'.put (written a s r (L '#'))) := by
    have hch : (s'.put (written a s r (L '#'))).ch = L '#' := hk.ch
    simp [newLineLoop, hout, hch]
  rw [hloop]
  refine ⟨?_, hk.eof, hk.updated, hk.matched, hs, ?_⟩
  · rw [hn]
    exact ⟨hl, rfl, hr⟩
  · change s'.configFileOutput ++ _ = _
    rw [hk.output]

theorem follows_reject (r' : Reader) {w : Warning} (h : Quiet a s r c) (hk : Kept s s' c)
    (hw : written a s r c = if a.updateConfigFile then [c] else [])
    (ht : s'.trailingComment = false) (hs : s'.settings = s.settings)
    (hp : r.pending = none) (hcut : r.cutOff c = isEol c) (hn : r.next c = r'.reject c)
    (hl : s'.sectionLength = r'.sect.length) (hr : resize s'.key s'.sectionLength = r'.sect) :
    Follows a s r c (rejectCharacter a s' w) := by
  have hemit : pairsOf s'.settings = pairsOf s.settings ++ r.emit c := by
    rw [hs, emit_of_pending hp, append_nil]
  by_cases he : isEol c = true
  · have hu : a.updateConfigFile = false := by
      cases hu : a.updateConfigFile with
      | false => rfl
      | true => exact absurd (h.whole hu).2 (by simp [hcut, he])
    have hend : ¬ (s'.ch ≠ weof ∧ s'.ch ≠ L '\n') := by
      rw [hk.ch]
      rcases (isEol_iff c).mp he with rfl | rfl <;> simp
    have heq : rejectCharacter a s' w = newLine a (s'.warn w) := by
      unfold rejectCharacter invalidLine
      simp only [hu, h.skip]
      exact if_neg hend
    rw [heq]
    refine follows_newLine r'.sect h ?_ he ht hemit ?_ hl hr
    · exact ⟨hk.ch, hk.eof, hk.updated, hk.matched, hk.output⟩
    · simp [hn, reject, he]
  · have hmid : c ≠ weof ∧ c ≠ L '\n' := by
      constructor <;> (rintro rfl; exact he (by decide))
    have hnext : r.next c = ⟨r'.sect, .invalid⟩ := by simp [hn, reject, he]
    cases hu : a.updateConfigFile with
    | false =>
      have heq : rejectCharacter a s' w = (.reading .invalidLine, s'.warn w) := by
        simp [rejectCharacter, invalidLine, hu, h.skip, State.warn, hk.ch, hmid]
      rw [heq]
      refine ⟨?_, hk.eof, hk.updated, hk.matched, hemit, ?_⟩
      · rw [hnext]
        exact ⟨hl, rfl, ht, hr⟩
      · change s'.configFileOutput = _
        simp [hw, hu, hk.output]
    | true =>
      have hzero : (0 : WChar) ≠ weof ∧ (0 : WChar) ≠ L '\n' := by decide
      have heq : rejectCharacter a s' w =
          (.reading .invalidLine, { (s'.warn w).put [c] with ch := 0 }) := by
        simp [rejectCharacter, invalidLine, hu, h.skip, State.warn, State.put, hk.ch, hzero]
      rw [heq]
      refine ⟨?_, hk.eof, hk.updated, hk.matched, hemit, ?_⟩
      · rw [hnext]
        exact ⟨hl, rfl, ht, hr⟩
      · change s'.configFileOutput ++ [c] = _
        simp [hw, hu, hk.output]

section Phases

theorem ne_of_test {p : WChar → Bool} {d : WChar} (h : p c = true) (hd : p d = false) : c ≠ d := by
  rintro rfl
  rw [h] at hd
  exact absurd hd (by decide)

theorem not_isEol_of_test {p : WChar → Bool} (h : p c = true) (hn : p (L '\n') = false)
    (hw : p weof = false) : isEol c = false := by
  have h1 := ne_of_test h hn
  have h2 := ne_of_test h hw
  simp [isEol, h1, h2]

theorem isEol_of_isHSpace (h : isHSpace c = true) : isEol c = false :=
  not_isEol_of_test h (by decide) (by decide)

theorem isEol_of_isalnum (h : isalnum c = true) : isEol c = false :=
  not_isEol_of_test h (by decide) (by decide)

theorem isalnum_of_isalpha (h : isalpha c = true) : isalnum c = true := by simp [isalnum, h]

theorem hash_of_isHSpace (h : isHSpace c = true) : c ≠ L '#' := ne_of_test h (by decide)

theorem hash_of_isalnum (h : isalnum c = true) : c ≠ L '#' := ne_of_test h (by decide)

theorem isHSpace_of_isalnum (h : isalnum c = true) : isHSpace c = false := by
  have h1 : c ≠ L ' ' := ne_of_test h (by decide)
  have h2 : c ≠ L '\t' := ne_of_test h (by decide)
  simp [isHSpace, h1, h2]

theorem resize_self (k : List UInt8) : resize k k.length = k := by simp [resize]

theorem resize_length (k : List UInt8) (n : Nat) : (resize k n).length = n := by
  simp only [resize, length_append, length_take, length_replicate]
  omega

theorem resize_qualify (r : Reader) (name : List UInt8) : resize (r.qualify name) r.sect.length = r.sect := by
  unfold qualify
  split
  · rename_i h
    simp [h, resize]
  · simp [resize]

theorem kept_fetch (he : s.eof = false) : Kept s (s.fetch c) c := ⟨rfl, he, rfl, id, rfl⟩

theorem ne_of_not_isEol (he : ¬ isEol c = true) : c ≠ weof ∧ c ≠ L '\n' := by
  constructor <;> (rintro rfl; exact he (by decide))

theorem not_ne_of_isEol (he : isEol c = true) : ¬ (c ≠ weof ∧ c ≠ L '\n') := by
  rcases (isEol_iff c).mp he with rfl | rfl <;> simp

theorem follows_invalid {sect : List UInt8} (h : Quiet a s ⟨sect, .invalid⟩ c)
    (ht : Tracks (st, s) ⟨sect, .invalid⟩) : Follows a s ⟨sect, .invalid⟩ c (step a (st, s) c) := by
  obtain ⟨hl, rfl, htc, hr⟩ := ht
  change Follows a s _ c (onInvalidLine a (s.fetch c))
  by_cases he : isEol c = true
  · have hend := not_ne_of_isEol he
    have hwrite : ¬ (c ≠ weof ∧ c ≠ L '\n' ∧ c ≠ L '\r') := fun hx => hend ⟨hx.1, hx.2.1⟩
    have heq : onInvalidLine a (s.fetch c) = newLine a (s.fetch c) := by
      unfold onInvalidLine
      have hch : (s.fetch c).ch = c := rfl
      simp only [hch, if_neg hwrite, if_neg hend]
    rw [heq]
    refine follows_newLine sect h (kept_fetch h.eof) he htc ?_ (by simp [Reader.next, he]) hl hr
    rw [emit_of_pending rfl, append_nil]
    rfl
  · have hmid := ne_of_not_isEol he
    have heq : onInvalidLine a (s.fetch c) = (.reading .invalidLine, (s.fetch c).echo a) := by
      unfold onInvalidLine State.echo
      cases a.updateConfigFile <;> simp [hmid, h.noReturn, State.fetch, State.put]
    rw [heq]
    refine follows_echo (kept_fetch h.eof) rfl (emit_of_pending rfl) ?_ ?_
    · exact written_eq rfl (by simp [inHeaderTail])
    · have hn : next ⟨sect, .invalid⟩ c = ⟨sect, .invalid⟩ := by simp [Reader.next, he]
      rw [hn]
      exact ⟨hl, rfl, htc, hr⟩

theorem follows_comment {sect : List UInt8} (h : Quiet a s ⟨sect, .comment⟩ c)
    (ht : Tracks (st, s) ⟨sect, .comment⟩) : Follows a s ⟨sect, .comment⟩ c (step a (st, s) c) := by
  obtain ⟨hl, rfl, hr⟩ := ht
  change Follows a s _ c (onComment a (s.fetch c))
  have hw : written a s ⟨sect, .comment⟩ c = if a.updateConfigFile then [c] else [] :=
    written_eq rfl (by simp [inHeaderTail])
  by_cases he : isEol c = true
  · -- the comment's own newline is written inside the comment loop
    have heq : ∃ n, onComment a (s.fetch c) = (.reading .leadingSpace,
        { s.fetch c with line := n, trailingComment := false,
                         configFileOutput := s.configFileOutput ++ written a s ⟨sect, .comment⟩ c }) := by
      rw [hw]
      rcases (isEol_iff c).mp he with rfl | rfl
      · refine ⟨s.line + 1, ?_⟩
        have h1 : L '\n' ≠ weof := by decide
        have h2 : L '\n' ≠ L '\r' := by decide
        cases hu : a.updateConfigFile <;>
          simp [onComment, commentEnd, checkEof, State.echo, State.fetch, State.put, h1, h2, hu, h.eof]
      · refine ⟨s.line, ?_⟩
        have h1 : weof ≠ L '\r' := by decide
        have h2 : weof ≠ L '\n' := by decide
        simp [onComment, commentEnd, checkEof, State.fetch, h1, h2, h.not_update, h.eof]
    obtain ⟨n, heq⟩ := heq
    rw [heq]
    refine ⟨?_, h.eof, rfl, id, ?_, rfl⟩
    · have hn : next ⟨sect, .comment⟩ c = ⟨sect, .lineStart⟩ := by simp [Reader.next, he]
      rw [hn]
      exact ⟨hl, rfl, rfl, hr⟩
    · rw [emit_of_pending rfl, append_nil]
      rfl
  · have hmid := ne_of_not_isEol he
    have heq : onComment a (s.fetch c) = (.reading .comment, (s.fetch c).echo a) := by
      unfold onComment commentEnd State.echo
      cases a.updateConfigFile <;> simp [hmid, h.noReturn, State.fetch, State.put]
    rw [heq]
    refine follows_echo (kept_fetch h.eof) rfl (emit_of_pending rfl) hw ?_
    have hn : next ⟨sect, .comment⟩ c = ⟨sect, .comment⟩ := by simp [Reader.next, he]
    rw [hn]
    exact ⟨hl, rfl, hr⟩

theorem follows_sectionFirst {sect : List UInt8} (h : Quiet a s ⟨sect, .sectionFirst⟩ c)
    (ht : Tracks (st, s) ⟨sect, .sectionFirst⟩) : Follows a s ⟨sect, .sectionFirst⟩ c (step a (st, s) c) := by
  obtain ⟨hl, rfl, htc, hr⟩ := ht
  change Follows a s _ c (onSectionFirst a (s.fetch c))
  have hw : written a s ⟨sect, .sectionFirst⟩ c = if a.updateConfigFile then [c] else [] :=
    written_eq rfl (by simp [inHeaderTail])
  by_cases hc : isalpha c = true
  · have heq : onSectionFirst a (s.fetch c) =
        (.reading .sectionName, State.echo a { s.fetch c with key := [narrow c] }) := by
      unfold onSectionFirst State.echo
      cases a.updateConfigFile <;> simp [hc, State.fetch, State.put]
    rw [heq]
    refine follows_echo ⟨rfl, h.eof, rfl, id, rfl⟩ rfl (emit_of_pending rfl) hw ?_
    have hn : next ⟨sect, .sectionFirst⟩ c = ⟨sect, .sectionName [narrow c]⟩ := by simp [Reader.next, hc]
    rw [hn]
    exact ⟨hl, rfl, htc, rfl⟩
  · have heq : onSectionFirst a (s.fetch c) =
        rejectCharacter a (s.fetch c) (.invalidSection s.line) := by
      simp [onSectionFirst, State.fetch, hc]
    rw [heq]
    exact follows_reject ⟨sect, .sectionFirst⟩ h (kept_fetch h.eof) hw htc rfl rfl rfl
      (by simp [Reader.next, hc]) hl hr

variable {sect name : List UInt8}

theorem follows_sectionName (h : Quiet a s ⟨sect, .sectionName name⟩ c)
    (ht : Tracks (st, s) ⟨sect, .sectionName name⟩) :
    Follows a s ⟨sect, .sectionName name⟩ c (step a (st, s) c) := by
  obtain ⟨hl, rfl, htc, hk⟩ := ht
  change Follows a s _ c (onSectionName a (s.fetch c))
  have hw : written a s ⟨sect, .sectionName name⟩ c = if a.updateConfigFile then [c] else [] :=
    written_eq rfl (by simp [inHeaderTail])
  by_cases hc : isalnum c = true
  · have heq : onSectionName a (s.fetch c) =
        (.reading .sectionName, State.echo a { s.fetch c with key := s.key ++ [narrow c] }) := by
      unfold onSectionName State.echo
      cases a.updateConfigFile <;> simp [hc, State.fetch, State.put]
    rw [heq]
    refine follows_echo ⟨rfl, h.eof, rfl, id, rfl⟩ rfl (emit_of_pending rfl) hw ?_
    have hn : next ⟨sect, .sectionName name⟩ c = ⟨sect, .sectionName (name ++ [narrow c])⟩ := by
      simp [Reader.next, hc]
    rw [hn]
    exact ⟨hl, rfl, htc, congrArg (· ++ [narrow c]) hk⟩
  · by_cases hb : c = L ']'
    · subst hb
      have heq : onSectionName a (s.fetch (L ']')) =
          (.reading .sectionSpace, (s.fetch (L ']')).echo a) := by
        simp [onSectionName, State.fetch, hc]
      rw [heq]
      refine follows_echo (kept_fetch h.eof) rfl (emit_of_pending rfl) hw ?_
      have hn : next ⟨sect, .sectionName name⟩ (L ']') = ⟨sect, .sectionSpace name⟩ := by
        simp [Reader.next, hc]
      rw [hn]
      exact ⟨hl, rfl, htc, hk⟩
    · have heq : onSectionName a (s.fetch c) =
          rejectCharacter a (s.fetch c) (.expected "']'" s.line) := by
        simp [onSectionName, State.fetch, hc, hb]
      rw [heq]
      refine follows_reject (spoil ⟨sect, .sectionName name⟩ name) h (kept_fetch h.eof) hw htc
        rfl rfl rfl (by simp [Reader.next, hc, hb]) ?_ ?_
      · exact hl.trans (resize_length _ _).symm
      · simp only [State.fetch, spoil] at hl hk ⊢
        rw [hl, hk]

theorem follows_sectionSpace (h : Quiet a s ⟨sect, .sectionSpace name⟩ c)
    (ht : Tracks (st, s) ⟨sect, .sectionSpace name⟩) :
    Follows a s ⟨sect, .sectionSpace name⟩ c (step a (st, s) c) := by
  obtain ⟨hl, rfl, htc, hk⟩ := ht
  change Follows a s _ c (onSectionSpace a (s.fetch c))
  by_cases hsp : isHSpace c = true
  · have heq : onSectionSpace a (s.fetch c) = (.reading .sectionSpace, (s.fetch c).echo a) := by
      simp [onSectionSpace, State.fetch, hsp]
    rw [heq]
    refine follows_echo (kept_fetch h.eof) rfl (emit_of_pending rfl)
      (written_of_ne (hash_of_isHSpace hsp)) ?_
    have hn : next ⟨sect, .sectionSpace name⟩ c = ⟨sect, .sectionSpace name⟩ := by simp [Reader.next, hsp]
    rw [hn]
    exact ⟨hl, rfl, htc, hk⟩
  by_cases he : isEol c = true
  · have hend : c = weof ∨ c = L '\n' ∨ c = L '\r' := by
      rcases (isEol_iff c).mp he with rfl | rfl <;> simp
    have heq : onSectionSpace a (s.fetch c) =
        newLine a { s.fetch c with sectionLength := s.key.length } := by
      simp [onSectionSpace, State.fetch, hsp, hend]
    rw [heq]
    refine follows_newLine name h ⟨rfl, h.eof, rfl, id, rfl⟩ he htc ?_
      (by simp [Reader.next, hsp, he]) (congrArg List.length hk) ?_
    · rw [emit_of_pending rfl, append_nil]
      rfl
    · exact (resize_self s.key).trans hk
  have hmid := ne_of_not_isEol he
  by_cases hh : c = L '#'
  · subst hh
    have heq : onSectionSpace a (s.fetch (L '#')) = newLineLoop a
        { s.fetch (L '#') with trailingComment := true, sectionLength := s.key.length } := by
      simp [onSectionSpace, State.fetch, hsp, hmid, h.noReturn, newLine]
    rw [heq]
    refine follows_hash name ⟨rfl, h.eof, rfl, id, rfl⟩ ?_ ?_ (by simp [Reader.next, hsp, he])
      (congrArg List.length hk) ((resize_self s.key).trans hk)
    · rw [emit_of_pending rfl, append_nil]
      rfl
    · cases hu : a.updateConfigFile <;> cases hm : s.matchedKey <;>
        simp [written, quotedHash, inHeaderTail, State.fetch, hu, hm]
  · have heq : onSectionSpace a (s.fetch c) =
        rejectCharacter a (s.fetch c) (.expected "' ' or '\\n'" s.line) := by
      simp [onSectionSpace, State.fetch, hsp, hmid, h.noReturn, hh]
    rw [heq]
    refine follows_reject (spoil ⟨sect, .sectionSpace name⟩ name) h (kept_fetch h.eof)
      (written_of_ne hh) htc rfl rfl (by simp [cutOff, he]) (by simp [Reader.next, hsp, he, hh]) ?_ ?_
    · exact hl.trans (resize_length _ _).symm
    · simp only [State.fetch, spoil] at hl hk ⊢
      rw [hl, hk]

theorem follows_lineStartPhase {sect : List UInt8} (h : Quiet a s ⟨sect, .lineStart⟩ c)
    (ht : Tracks (st, s) ⟨sect, .lineStart⟩) : Follows a s ⟨sect, .lineStart⟩ c (step a (st, s) c) := by
  obtain ⟨hl, rfl, htc, hr⟩ := ht
  change Follows a s _ c (onLeadingSpace a (s.fetch c))
  have hw : written a s ⟨sect, .lineStart⟩ c = if a.updateConfigFile then [c] else [] :=
    written_eq rfl (by simp [inHeaderTail])
  have hemit : pairsOf s.settings = pairsOf s.settings ++ emit ⟨sect, .lineStart⟩ c := by
    rw [emit_of_pending rfl, append_nil]
  by_cases hsp : isHSpace c = true
  · have heq : onLeadingSpace a (s.fetch c) = (.reading .leadingSpace, (s.fetch c).echo a) := by
      simp [onLeadingSpace, State.fetch, hsp]
    rw [heq]
    refine follows_echo (kept_fetch h.eof) rfl (emit_of_pending rfl) hw ?_
    have hn : next ⟨sect, .lineStart⟩ c = ⟨sect, .lineStart⟩ := by simp [Reader.next, hsp]
    rw [hn]
    exact ⟨hl, rfl, htc, hr⟩
  by_cases he : isEol c = true
  · have heq : ∃ n, onLeadingSpace a (s.fetch c) = newLineLoop a { s.fetch c with line := n } := by
      rcases (isEol_iff c).mp he with rfl | rfl
      · have h1 : L '\n' ≠ weof := by decide
        have h2 : L '\n' ≠ L '\r' := by decide
        exact ⟨s.line + 1, by simp [onLeadingSpace, State.fetch, hsp, h1, h2]⟩
      · exact ⟨s.line, by simp [onLeadingSpace, State.fetch, hsp]⟩
    obtain ⟨n, heq⟩ := heq
    rw [heq]
    exact follows_lineStart sect h ⟨rfl, h.eof, rfl, id, rfl⟩ he htc hemit
      (by simp [Reader.next, hsp, he]) hl hr
  have hmid := ne_of_not_isEol he
  by_cases hh : c = L '#'
  · subst hh
    have heq : onLeadingSpace a (s.fetch (L '#')) = newLineLoop a (s.fetch (L '#')) := by
      simp [onLeadingSpace, State.fetch, hsp, hmid, h.noReturn]
    rw [heq]
    refine follows_hash sect (kept_fetch h.eof) hemit ?_ (by simp [Reader.next, hsp, he]) hl hr
    have htc' : (s.fetch (L '#')).trailingComment = false := htc
    simp [hw, htc']
  by_cases hb : c = L '['
  · subst hb
    have heq : onLeadingSpace a (s.fetch (L '[')) =
        (.reading .sectionFirst, (s.fetch (L '[')).echo a) := by
      have hins := h.noInsert rfl rfl
      have hch : (s.fetch (L '[')).ch = L '[' := rfl
      unfold onLeadingSpace
      simp only [hch, hsp, hmid, h.noReturn, hh, hins, parseSection]
      simp
    rw [heq]
    refine follows_echo (kept_fetch h.eof) rfl (emit_of_pending rfl) hw ?_
    have hn : next ⟨sect, .lineStart⟩ (L '[') = ⟨sect, .sectionFirst⟩ := by simp [Reader.next, hsp, he, hh]
    rw [hn]
    exact ⟨hl, rfl, htc, hr⟩
  by_cases hc : isalpha c = true
  · have heq : onLeadingSpace a (s.fetch c) = (.reading .keyName, State.echo a
        { s.fetch c with key := qualify ⟨sect, .lineStart⟩ [narrow c] }) := by
      have hkey : ((if (resize s.key s.sectionLength).length > 0
          then resize s.key s.sectionLength ++ [narrow (L '.')]
          else resize s.key s.sectionLength) ++ [narrow c]) =
          qualify ⟨sect, .lineStart⟩ [narrow c] := by
        rw [hr, qualify]
        by_cases hs : sect = [] <;> simp [hs, length_pos_iff]
      have hstep : onLeadingSpace a (s.fetch c) = parseKeyValue a (s.fetch c) := by
        simp [onLeadingSpace, State.fetch, hsp, hmid, h.noReturn, hh, hb, hc]
      rw [hstep, ← hkey]
      unfold parseKeyValue State.echo
      cases a.updateConfigFile <;> simp [State.fetch, State.put]
    rw [heq]
    refine follows_echo ⟨rfl, h.eof, rfl, id, rfl⟩ rfl (emit_of_pending rfl) hw ?_
    have hn : next ⟨sect, .lineStart⟩ c = ⟨sect, .keyName [narrow c]⟩ := by
      simp [Reader.next, hsp, he, hh, hb, hc]
    rw [hn]
    exact ⟨hl, rfl, htc, rfl⟩
  · have heq : onLeadingSpace a (s.fetch c) =
        rejectCharacter a (s.fetch c) (.invalidKey s.line) := by
      simp [onLeadingSpace, State.fetch, hsp, hmid, h.noReturn, hh, hb, hc]
    rw [heq]
    refine follows_reject ⟨sect, .lineStart⟩ h (kept_fetch h.eof) hw htc rfl rfl
      (by simp [cutOff, he]) ?_ hl hr
    simp [Reader.next, reject, hsp, he, hh, hb, hc]

theorem follows_keySpaceLoop (h : Quiet a s r c)
    (hr : r.phase = .keyName name ∨ r.phase = .keySpace name) (hsect : r.sect = sect)
    (hn : r.next c = if isHSpace c then ⟨sect, .keySpace name⟩
      else if c = L '=' then ⟨sect, .valueSpace name⟩ else r.reject c)
    (hl : s.sectionLength = r.sect.length) (htc : s.trailingComment = false)
    (hk : s.key = r.qualify name) : Follows a s r c (onKeySpace a (s.fetch c)) := by
  have hw : written a s r c = if a.updateConfigFile then [c] else [] := by
    refine written_eq ?_ ?_ <;> rcases hr with hr | hr <;> simp [quotedHash, inHeaderTail, hr]
  have hp : r.pending = none := by rcases hr with hr | hr <;> simp [pending, hr]
  subst hsect
  by_cases hsp : isHSpace c = true
  · have heq : onKeySpace a (s.fetch c) = (.reading .keySpace, (s.fetch c).echo a) := by
      simp [onKeySpace, State.fetch, hsp]
    rw [heq]
    refine follows_echo (kept_fetch h.eof) rfl (emit_of_pending hp) hw ?_
    rw [hn, if_pos hsp]
    exact ⟨hl, rfl, htc, hk⟩
  by_cases hc : c = L '='
  · subst hc
    have heq : onKeySpace a (s.fetch (L '=')) =
        (.reading .valueSpace, (s.fetch (L '=')).echo a) := by
      simp [onKeySpace, State.fetch, hsp]
    rw [heq]
    refine follows_echo (kept_fetch h.eof) rfl (emit_of_pending hp) hw ?_
    rw [hn, if_neg hsp, if_pos rfl]
    exact ⟨hl, rfl, htc, hk⟩
  · have heq : onKeySpace a (s.fetch c) =
        rejectCharacter a (s.fetch c) (.expected "'='" s.line) := by
      simp [onKeySpace, State.fetch, hsp, hc]
    rw [heq]
    refine follows_reject r h (kept_fetch h.eof) hw htc rfl hp ?_ ?_ hl ?_
    · rcases hr with hr | hr <;> simp [cutOff, hr]
    · rw [hn, if_neg hsp, if_neg hc]
    · simp only [State.fetch, hl, hk, resize_qualify]

theorem follows_keyName (h : Quiet a s ⟨sect, .keyName name⟩ c) (ht : Tracks (st, s) ⟨sect, .keyName name⟩) :
    Follows a s ⟨sect, .keyName name⟩ c (step a (st, s) c) := by
  obtain ⟨hl, rfl, htc, hk⟩ := ht
  change Follows a s _ c (onKeyName a (s.fetch c))
  by_cases hc : isalnum c = true
  · have heq : onKeyName a (s.fetch c) =
        (.reading .keyName, State.echo a { s.fetch c with key := s.key ++ [narrow c] }) := by
      unfold onKeyName State.echo
      cases a.updateConfigFile <;> simp [hc, State.fetch, State.put]
    rw [heq]
    refine follows_echo ⟨rfl, h.eof, rfl, id, rfl⟩ rfl (emit_of_pending rfl)
      (written_of_ne (hash_of_isalnum hc)) ?_
    have hn : next ⟨sect, .keyName name⟩ c = ⟨sect, .keyName (name ++ [narrow c])⟩ := by
      simp [Reader.next, hc]
    rw [hn]
    refine ⟨hl, rfl, htc, ?_⟩
    have hq : s.key ++ [narrow c] = qualify ⟨sect, .keyName name⟩ name ++ [narrow c] :=
      congrArg (· ++ [narrow c]) hk
    refine hq.trans ?_
    unfold qualify
    split <;> simp
  · have heq : onKeyName a (s.fetch c) = onKeySpace a (s.fetch c) := by
      simp [onKeyName, State.fetch, hc]
    rw [heq]
    exact follows_keySpaceLoop h (.inl rfl) rfl (by simp [Reader.next, hc]) hl htc hk

theorem follows_keySpace (h : Quiet a s ⟨sect, .keySpace name⟩ c) (ht : Tracks (st, s) ⟨sect, .keySpace name⟩) :
    Follows a s ⟨sect, .keySpace name⟩ c (step a (st, s) c) := by
  obtain ⟨hl, rfl, htc, hk⟩ := ht
  change Follows a s _ c (onKeySpace a (s.fetch c))
  exact follows_keySpaceLoop h (.inr rfl) rfl (by simp [Reader.next]) hl htc hk

/-- The machine inside a value that is not the one to be written. -/
structure InValue (s s' : State) (r : Reader) (name kept blanks : List UInt8) (inQuote : Bool)
    (c : WChar) : Prop where
  base : Kept s s' c
  settings : s'.settings = s.settings
  length : s'.sectionLength = r.sect.length
  trailing : s'.trailingComment = false
  key : s'.key = r.qualify name
  value : s'.value = kept ++ blanks
  trimmed : s'.trimmedLength = kept.length
  quote : s'.inQuote = inQuote
  first : s'.firstMatchedKey = false
  matched : s'.matchedKey = false

variable {inQuote : Bool}

theorem follows_valueEnd {name kept blanks : List UInt8} (h : Quiet a s r c)
    (hv : InValue s s' r name kept blanks inQuote c) (hc : isEol c = true)
    (hn : r.next c = ⟨r.sect, .lineStart⟩)
    (hp : r.pending = if inQuote then none else some (cstr (r.qualify name), cstr kept)) :
    Follows a s r c (valueDone a s') := by
  have hend := not_ne_of_isEol hc
  have hch := hv.base.ch
  have hemit : r.emit c = r.pending.toList := by simp [emit, hc]
  cases inQuote with
  | true =>
    have heq : valueDone a s' = newLine a (s'.warn (.expected "\"" s'.line)) := by
      have hgo : ¬ (s'.ch ≠ weof ∧ s'.ch ≠ L '\n') := by rwa [hch]
      have hinv : invalidLine a (s'.warn (.expected "\"" s'.line)) =
          newLine a (s'.warn (.expected "\"" s'.line)) := by
        unfold invalidLine
        simp only [h.skip]
        exact if_neg hgo
      rw [← hinv]
      simp [valueDone, hv.quote, hv.first, hv.matched, State.warn]
    rw [heq]
    refine follows_newLine r.sect h ?_ hc hv.trailing ?_ hn hv.length ?_
    · exact ⟨hch, hv.base.eof, hv.base.updated, hv.base.matched, hv.base.output⟩
    · change pairsOf s'.settings = _
      rw [hv.settings, hemit, hp]
      simp
    · change resize s'.key s'.sectionLength = _
      rw [hv.key, hv.length, resize_qualify]
  | false =>
    have hval : resize s'.value s'.trimmedLength = kept := by
      simp [hv.value, hv.trimmed, resize]
    have heq : valueDone a s' = newLine a { s' with
        value := kept, settings := s'.settings ++ [⟨cstr s'.key, cstr kept, s'.line⟩] } := by
      unfold valueDone
      simp [hv.quote, hv.first, hv.matched, hval]
    rw [heq]
    refine follows_newLine r.sect h ?_ hc hv.trailing ?_ hn hv.length ?_
    · exact ⟨hch, hv.base.eof, hv.base.updated, hv.base.matched, hv.base.output⟩
    · rw [hemit, hp]
      simp [pairsOf, hv.settings, hv.key]
    · change resize s'.key s'.sectionLength = _
      rw [hv.key, hv.length, resize_qualify]

theorem follows_valueHash {name kept blanks : List UInt8}
    (hv : InValue s s' r name kept blanks false (L '#')) (hh : r.inHeaderTail = false)
    (hq : r.quotedHash (L '#') = false) (hn : r.next (L '#') = ⟨r.sect, .comment⟩)
    (hp : r.pending = some (cstr (r.qualify name), cstr kept)) :
    Follows a s r (L '#') (valueDone a { s' with trailingComment := true }) := by
  have hval : resize s'.value s'.trimmedLength = kept := by
    simp [hv.value, hv.trimmed, resize]
  have heq : valueDone a { s' with trailingComment := true } = newLineLoop a { s' with
      trailingComment := true,
      value := kept, settings := s'.settings ++ [⟨cstr s'.key, cstr kept, s'.line⟩] } := by
    unfold valueDone newLine
    simp [hv.quote, hv.first, hv.matched, hval]
  rw [heq]
  refine follows_hash r.sect ?_ ?_ ?_ hn hv.length ?_
  · exact ⟨hv.base.ch, hv.base.eof, hv.base.updated, hv.base.matched, hv.base.output⟩
  · simp [emit, hp, pairsOf, hv.settings, hv.key]
  · rw [written_eq hq (by simp [hh])]
    simp [hv.matched]
  · change resize s'.key s'.sectionLength = _
    rw [hv.key, hv.length, resize_qualify]

theorem follows_valueLoop {name : List UInt8} (kept blanks : List UInt8) (inQuote : Bool) (h : Quiet a s r c)
    (hv : InValue s s' r name kept blanks inQuote c) (hh : r.inHeaderTail = false)
    (hq : r.quotedHash c = (inQuote && c == L '#')) (hn : r.next c = r.nextValue name kept blanks inQuote c)
    (hp : r.pending = if inQuote then none else some (cstr (r.qualify name), cstr kept)) :
    Follows a s r c (valueLoop a s') := by
  have hch := hv.base.ch
  by_cases he : isEol c = true
  · have hend : s'.ch = weof ∨ s'.ch = L '\n' ∨ s'.ch = L '\r' := by
      rw [hch]
      rcases (isEol_iff c).mp he with rfl | rfl <;> simp
    have heq : valueLoop a s' = valueDone a s' := by simp [valueLoop, hend]
    rw [heq]
    exact follows_valueEnd h hv he (by simp [hn, nextValue, he]) hp
  have hmid := ne_of_not_isEol he
  have hgo : ¬ (c = weof ∨ c = L '\n' ∨ c = L '\r') := by simp [hmid, h.noReturn]
  -- the fields that every continuation of the value shares
  have htracks : ∀ (k b : List UInt8) (q : Bool) (x : State), x.sectionLength = s'.sectionLength →
      x.trailingComment = s'.trailingComment → x.key = s'.key → x.value = k ++ b →
      x.trimmedLength = k.length → x.inQuote = q → x.firstMatchedKey = s'.firstMatchedKey →
      x.matchedKey = s'.matchedKey → Tracks (.reading .value, x) ⟨r.sect, .value name k b q⟩ := by
    intro k b q x h1 h2 h3 h4 h5 h6 h7 h8
    exact ⟨h1.trans hv.length, rfl, h2.trans hv.trailing, h3.trans hv.key, h4, h5, h6,
      h7.trans hv.first, h8.trans hv.matched⟩
  by_cases hhash : c = L '#'
  · subst hhash
    have h1 : L '#' ≠ L '"' := by decide
    have h2 : L '#' ≠ L '\\' := by decide
    cases inQuote with
    | false =>
      have heq : valueLoop a s' = valueDone a { s' with trailingComment := true } := by
        unfold valueLoop
        simp [hch, hgo, hv.first, hv.matched, hv.quote, h1, h2]
      rw [heq]
      exact follows_valueHash hv hh (by simp [hq]) (by simp [hn, nextValue, he, h1, h2]) hp
    | true =>
      have h3 : isHSpace (L '#') = false := by decide
      have heq : valueLoop a s' = (.reading .value, { s' with
          value := s'.value ++ [narrow (L '#')], trimmedLength := s'.value.length + 1 }) := by
        unfold valueLoop valueNext State.push
        simp [hch, hgo, hv.first, hv.matched, hv.quote, h1, h2, h3]
      have hw : written a s r (L '#') = [] := by simp [written, hq]
      have hnext : r.next (L '#') = ⟨r.sect, .value name (kept ++ blanks ++ [narrow (L '#')]) [] true⟩ := by
        simp [hn, nextValue, he, h1, h2, h3]
      rw [heq]
      refine ⟨?_, hv.base.eof, hv.base.updated, hv.base.matched, ?_, ?_⟩
      · rw [hnext]
        refine htracks _ _ _ _ rfl rfl rfl ?_ ?_ hv.quote rfl rfl
        · simp [hv.value]
        · simp [hv.value]
          omega
      · simp [emit, hp, hv.settings]
      · rw [hw, append_nil]
        exact hv.base.output
  have hw := written_of_ne (a := a) (s := s) (r := r) hhash
  have hemit : r.emit c = [] := emit_eq_nil (by simpa using he) hhash
  have hb := hv.base
  by_cases hquote : c = L '"'
  · subst hquote
    have h3 : isHSpace (L '"') = false := by decide
    have heq : valueLoop a s' = (.reading .value, State.echo a
        { s' with inQuote := !inQuote, trimmedLength := s'.value.length }) := by
      unfold valueLoop valueNext State.echo
      cases a.updateConfigFile <;>
        simp [hch, hgo, hv.first, hv.matched, hv.quote, hhash, h3, State.put]
    rw [heq]
    refine follows_echo ⟨hch, hb.eof, hb.updated, hb.matched, hb.output⟩ hv.settings hemit hw ?_
    have hnext : r.next (L '"') = ⟨r.sect, .value name (kept ++ blanks) [] (!inQuote)⟩ := by
      simp [hn, nextValue, he]
    rw [hnext]
    refine htracks _ _ _ _ rfl rfl rfl ?_ ?_ rfl rfl rfl
    · simp [hv.value]
    · simp [hv.value]
  by_cases hslash : c = L '\\'
  · subst hslash
    have heq : valueLoop a s' = (.reading .escape, s'.echo a) := by
      unfold valueLoop State.echo
      cases a.updateConfigFile <;>
        simp [hch, hgo, hv.first, hv.matched, hhash, hquote, State.put]
    rw [heq]
    refine follows_echo hb hv.settings hemit hw ?_
    have hnext : r.next (L '\\') = ⟨r.sect, .escape name (kept ++ blanks) inQuote⟩ := by
      simp [hn, nextValue, he, hquote]
    rw [hnext]
    exact ⟨hv.length, rfl, hv.trailing, hv.key, hv.value, hv.quote, hch, hv.first, hv.matched⟩
  by_cases hsp : isHSpace c = true
  · have heq : valueLoop a s' = (.reading .value, State.echo a (s'.push (narrow c))) := by
      unfold valueLoop valueNext State.echo State.push
      cases a.updateConfigFile <;>
        simp [hch, hgo, hv.first, hv.matched, hhash, hquote, hslash, hsp, State.put]
    rw [heq]
    refine follows_echo ⟨hch, hb.eof, hb.updated, hb.matched, hb.output⟩ hv.settings hemit hw ?_
    have hnext : r.next c = ⟨r.sect, .value name kept (blanks ++ [narrow c]) inQuote⟩ := by
      simp [hn, nextValue, he, hquote, hslash, hhash, hsp]
    rw [hnext]
    refine htracks _ _ _ _ rfl rfl rfl ?_ hv.trimmed hv.quote rfl rfl
    simp [State.push, hv.value]
  · have heq : valueLoop a s' = (.reading .value, State.echo a
        { s' with value := s'.value ++ [narrow c], trimmedLength := s'.value.length + 1 }) := by
      unfold valueLoop valueNext State.echo State.push
      cases a.updateConfigFile <;>
        simp [hch, hgo, hv.first, hv.matched, hhash, hquote, hslash, hsp, State.put]
    rw [heq]
    refine follows_echo ⟨hch, hb.eof, hb.updated, hb.matched, hb.output⟩ hv.settings hemit hw ?_
    have hnext : r.next c = ⟨r.sect, .value name (kept ++ blanks ++ [narrow c]) [] inQuote⟩ := by
      simp [hn, nextValue, he, hquote, hslash, hhash, hsp]
    rw [hnext]
    refine htracks _ _ _ _ rfl rfl rfl ?_ ?_ hv.quote rfl rfl
    · simp [hv.value]
    · simp [hv.value]
      omega

theorem follows_value {sect name kept blanks : List UInt8}
    (h : Quiet a s ⟨sect, .value name kept blanks inQuote⟩ c)
    (ht : Tracks (st, s) ⟨sect, .value name kept blanks inQuote⟩) :
    Follows a s ⟨sect, .value name kept blanks inQuote⟩ c (step a (st, s) c) := by
  obtain ⟨hl, rfl, htc, hk, hval, htrim, hq, hf, hm⟩ := ht
  change Follows a s _ c (valueLoop a (s.fetch c))
  refine follows_valueLoop kept blanks inQuote h ⟨kept_fetch h.eof, rfl, hl, htc, hk, hval, htrim, hq, hf, hm⟩ rfl rfl
    rfl ?_
  cases inQuote <;> rfl

theorem follows_valueSpace (h : Quiet a s ⟨sect, .valueSpace name⟩ c)
    (ht : Tracks (st, s) ⟨sect, .valueSpace name⟩) :
    Follows a s ⟨sect, .valueSpace name⟩ c (step a (st, s) c) := by
  obtain ⟨hl, rfl, htc, hk⟩ := ht
  change Follows a s _ c (onValueSpace a (s.fetch c))
  by_cases hsp : isHSpace c = true
  · have heq : onValueSpace a (s.fetch c) = (.reading .valueSpace, (s.fetch c).echo a) := by
      simp [onValueSpace, State.fetch, hsp]
    rw [heq]
    refine follows_echo (kept_fetch h.eof) rfl
      (emit_eq_nil (isEol_of_isHSpace hsp) (hash_of_isHSpace hsp))
      (written_of_ne (hash_of_isHSpace hsp)) ?_
    have hn : next ⟨sect, .valueSpace name⟩ c = ⟨sect, .valueSpace name⟩ := by simp [Reader.next, hsp]
    rw [hn]
    exact ⟨hl, rfl, htc, hk⟩
  · obtain ⟨hfirst, hmatch⟩ := h.noMatch name rfl (by simpa using hsp)
    have heq : onValueSpace a (s.fetch c) = valueLoop a { s.fetch c with
        firstMatchedKey := false, matchedKey := false, value := [], trimmedLength := 0,
        inQuote := false } := by
      have hf : (((s.fetch c).unwritten a) &&
          a.outputKey.elim false fun k => k.matches (cstr (s.fetch c).key)) = false := hfirst
      have hm : (a.updateConfigFile && a.removeKey &&
          a.outputKey.elim false fun k => k.matches (cstr (s.fetch c).key)) = false := hmatch
      have hch : ¬ isHSpace (s.fetch c).ch = true := hsp
      unfold onValueSpace beginValue
      simp only [if_neg hch, hf, hm]
      rfl
    rw [heq]
    refine follows_valueLoop [] [] false h ?_ rfl ?_ ?_ rfl
    · exact ⟨⟨rfl, h.eof, rfl, fun hx => absurd hx (by simp), rfl⟩, rfl, hl, htc, hk, rfl, rfl, rfl,
        rfl, rfl⟩
    · simp [quotedHash]
    · simp [Reader.next, hsp]

def State.escapeEcho (a : Args) (s : State) (c : WChar) : List WChar :=
  if a.updateConfigFile && !s.firstMatchedKey && !s.matchedKey && c != weof then [c] else []

theorem escapeEcho_eq (a : Args) (s : State) (c : WChar) :
    (if a.updateConfigFile && !s.firstMatchedKey && !s.matchedKey && c != weof then s.put [c]
      else s) = s.put (s.escapeEcho a c) := by
  unfold State.escapeEcho
  split
  · rfl
  · simp [State.put]

theorem valueNext_push (hch : s.ch = L '\\') (b : UInt8) :
    valueNext (s.push b) = (.reading .value, { s with
      value := s.value ++ [b], trimmedLength := (s.value ++ [b]).length }) := by
  have hsp : isHSpace (L '\\') = false := by decide
  simp [valueNext, State.push, hch, hsp]

theorem onEscape_some {text : List UInt8} (hch : s.ch = L '\\') (hc : c ≠ L '\r')
    (ht : escapeText c = some text) :
    ∃ n, onEscape a s c = (.reading .value, { s.put (s.escapeEcho a c) with
      value := s.value ++ text, trimmedLength := (s.value ++ text).length, line := n }) := by
  have hput : (s.put (s.escapeEcho a c)).ch = L '\\' := hch
  unfold escapeText at ht
  unfold onEscape
  simp only [escapeEcho_eq, valueNext_push hput, if_neg hc]
  -- both definitions test the same characters in the same order
  split at ht
  · obtain rfl := Option.some.inj ht
    exact ⟨s.line, by simp_all [State.put]⟩
  split at ht
  · obtain rfl := Option.some.inj ht
    exact ⟨s.line, by simp_all [State.put]⟩
  split at ht
  · obtain rfl := Option.some.inj ht
    exact ⟨s.line, by simp_all [State.put]⟩
  split at ht
  · obtain rfl := Option.some.inj ht
    exact ⟨s.line, by simp_all [State.put]⟩
  split at ht
  · obtain rfl := Option.some.inj ht
    have hsp : isHSpace (L '\\') = false := by decide
    exact ⟨s.line + 1, by simp_all [State.put, valueNext]⟩
  · exact absurd ht (by simp)

theorem onEscape_none (hc : c ≠ L '\r') (ht : escapeText c = none) :
    onEscape a s c =
      if s.firstMatchedKey then valueNext ((s.put (s.escapeEcho a c)).warn (.invalidEscape c s.line))
      else invalidLine a ((s.put (s.escapeEcho a c)).warn (.invalidEscape c s.line)) := by
  unfold escapeText at ht
  unfold onEscape
  simp only [escapeEcho_eq, if_neg hc]
  split at ht
  · exact absurd ht (by simp)
  split at ht
  · exact absurd ht (by simp)
  split at ht
  · exact absurd ht (by simp)
  split at ht
  · exact absurd ht (by simp)
  split at ht
  · exact absurd ht (by simp)
  · rename_i h1 h2 h3 h4 h5
    simp only [if_neg h1, if_neg h2, if_neg h3, if_neg h4, if_neg h5]
    rfl

theorem follows_escape {sect name value : List UInt8} (h : Quiet a s ⟨sect, .escape name value inQuote⟩ c)
    (ht : Tracks (st, s) ⟨sect, .escape name value inQuote⟩) :
    Follows a s ⟨sect, .escape name value inQuote⟩ c (step a (st, s) c) := by
  obtain ⟨hl, rfl, htc, hk, hval, hq, hch, hf, hm⟩ := ht
  change Follows a s _ c (onEscape a s c)
  have hw : s.escapeEcho a c = written a s ⟨sect, .escape name value inQuote⟩ c := by
    rw [written_eq rfl (by simp [inHeaderTail])]
    simp only [State.escapeEcho] at hf hm ⊢
    cases hu : a.updateConfigFile with
    | false => simp
    | true => simp [hf, hm, (h.whole hu).1]
  have hemit : pairsOf s.settings = pairsOf s.settings ++
      emit ⟨sect, .escape name value inQuote⟩ c := by
    rw [emit_of_pending rfl, append_nil]
  cases he : escapeText c with
  | some text =>
    obtain ⟨n, heq⟩ := onEscape_some (a := a) hch h.noReturn he
    rw [heq, hw]
    refine ⟨?_, h.eof, rfl, id, hemit, rfl⟩
    have hn : next ⟨sect, .escape name value inQuote⟩ c =
        ⟨sect, .value name (value ++ text) [] inQuote⟩ := by simp [Reader.next, he]
    rw [hn]
    refine ⟨hl, rfl, htc, hk, ?_, ?_, hq, hf, hm⟩
    · exact (congrArg (· ++ text) hval).trans (append_nil _).symm
    · exact congrArg (fun v => (v ++ text).length) hval
  | none =>
    have hgo : L '\\' ≠ weof ∧ L '\\' ≠ L '\n' := by decide
    have heq : onEscape a s c = (.reading .invalidLine,
        (s.put (s.escapeEcho a c)).warn (.invalidEscape c s.line)) := by
      have hch' : ((s.put (s.escapeEcho a c)).warn (.invalidEscape c s.line)).ch = L '\\' := hch
      have hf' : s.firstMatchedKey = false := hf
      rw [onEscape_none h.noReturn he, hf']
      simp [invalidLine, h.skip, hch', hgo]
    rw [heq, hw]
    refine ⟨?_, h.eof, rfl, id, hemit, rfl⟩
    have hn : next ⟨sect, .escape name value inQuote⟩ c = ⟨sect, .invalid⟩ := by simp [Reader.next, he]
    rw [hn]
    refine ⟨hl, rfl, htc, ?_⟩
    change resize s.key s.sectionLength = sect
    simp only [] at hl hk
    rw [hl, hk, resize_qualify]

/-- The step lemma: away from the key to be written the machine and the reader
move together. -/
theorem step_follows (h : Quiet a s r c) (ht : Tracks (st, s) r) : Follows a s r c (step a (st, s) c) := by
  obtain ⟨sect, phase⟩ := r
  cases phase with
  | lineStart => exact follows_lineStartPhase h ht
  | comment => exact follows_comment h ht
  | invalid => exact follows_invalid h ht
  | sectionFirst => exact follows_sectionFirst h ht
  | sectionName name => exact follows_sectionName h ht
  | sectionSpace name => exact follows_sectionSpace h ht
  | keyName name => exact follows_keyName h ht
  | keySpace name => exact follows_keySpace h ht
  | valueSpace name => exact follows_valueSpace h ht
  | value name kept blanks inQuote => exact follows_value h ht
  | escape name value inQuote => exact follows_escape h ht

end Phases

end WslPlus.ConfigFile
