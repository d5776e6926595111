import WslPlus.ConfigFile.Modes

/-!
# What update mode copies

Removing a key that does not occur should give the text back. Update mode follows
the reader, except that a line that ends inside a header or a name takes the next
line with it. On that reading the output differs from the text exactly at a `#`
between quotes, at a line of the key, and at an end inside a header or a name,
where the end-of-file value is written.
-/

namespace WslPlus.ConfigFile

open List Reader

variable {k : ConfigKey} {s : State} {r : Reader} {c d : WChar} {x : Status × State} {text : List WChar}

def Reader.copyNext (r : Reader) (c : WChar) : Reader :=
  if r.cutOff c then ⟨(r.next c).sect, .invalid⟩ else r.next c

/-- Every character is written, no line of the key comes, and the text ends in a
place where nothing is missing. -/
def Reader.copies (k : ConfigKey) (r : Reader) : List WChar → Bool
  | [] => !r.cutOff weof && !r.atKey k weof
  | c :: text => !r.quotedHash c && !r.atKey k c && (r.copyNext c).copies k text

/-- Update mode before it meets a line of the key. -/
structure Following (x : Status × State) (r : Reader) : Prop where
  tracks : Tracks x r
  eof : x.2.eof = false
  unmatched : x.2.matchedKey = false

def Reader.echoed (r : Reader) (c : WChar) : List WChar := if r.quotedHash c then [] else [c]

theorem written_remove (hm : s.matchedKey = false) : written (Args.remove k) s r c = r.echoed c := by
  have hu : (Args.remove k).updateConfigFile = true := rfl
  unfold written Reader.echoed
  simp [hu, hm]

theorem rejectCharacter_remove (s : State) (w : Warning) :
    rejectCharacter (Args.remove k) s w = (.reading .invalidLine, { (s.warn w).put [s.ch] with ch := 0 }) := by
  have hzero : (0 : WChar) ≠ weof ∧ (0 : WChar) ≠ L '\n' := by decide
  simp [rejectCharacter, invalidLine, Args.remove, Args.updateConfigFile, State.warn, State.put, hzero]

theorem following_reject {sect : List UInt8} (hx : Following x r) (w : Warning)
    (heq : step (Args.remove k) x c = rejectCharacter (Args.remove k) (x.2.fetch c) w)
    (ht : x.2.trailingComment = false) (hl : x.2.sectionLength = sect.length)
    (hr : resize x.2.key x.2.sectionLength = sect) :
    Following (step (Args.remove k) x c) ⟨sect, .invalid⟩ ∧
      (step (Args.remove k) x c).2.configFileOutput = x.2.configFileOutput ++ [c] := by
  rw [heq, rejectCharacter_remove]
  exact ⟨⟨⟨hl, rfl, ht, hr⟩, hx.eof, hx.unmatched⟩, rfl⟩

theorem following_cut (hx : Following x r) (hc : isEol c = true) (hcut : r.cutOff c = true) :
    Following (step (Args.remove k) x c) ⟨(r.next c).sect, .invalid⟩ ∧
      (step (Args.remove k) x c).2.configFileOutput = x.2.configFileOutput ++ [c] := by
  obtain ⟨hsp, halnum, halpha, hclose⟩ := plain_of_isEol hc
  have ht := hx.tracks
  obtain ⟨st, s⟩ := x
  obtain ⟨sect, phase⟩ := r
  cases phase with
  | sectionFirst =>
    obtain ⟨hl, rfl, htc, hr⟩ := ht
    have hn : (next ⟨sect, .sectionFirst⟩ c).sect = sect := by simp [Reader.next, halpha, reject]
    rw [hn]
    refine following_reject hx (.invalidSection s.line) ?_ htc hl hr
    change onSectionFirst (Args.remove k) (s.fetch c) = _
    simp [onSectionFirst, State.fetch, halpha]
  | sectionName name =>
    obtain ⟨hl, rfl, htc, hk⟩ := ht
    have hn : (next ⟨sect, .sectionName name⟩ c).sect = resize name sect.length := by
      simp [Reader.next, halnum, hclose, reject, spoil]
    rw [hn]
    refine following_reject hx (.expected "']'" s.line) ?_ htc ?_ ?_
    · change onSectionName (Args.remove k) (s.fetch c) = _
      simp [onSectionName, State.fetch, halnum, hclose]
    · rw [resize_length]
      exact hl
    · simp only at hl hk ⊢
      rw [hl, hk]
  | keyName name =>
    obtain ⟨hl, rfl, htc, hk⟩ := ht
    have hn : (next ⟨sect, .keyName name⟩ c).sect = sect := by
      simp [Reader.next, halnum, hsp, hclose, reject]
    rw [hn]
    refine following_reject hx (.expected "'='" s.line) ?_ htc hl ?_
    · change onKeyName (Args.remove k) (s.fetch c) = _
      simp [onKeyName, onKeySpace, State.fetch, halnum, hsp, hclose]
    · simp only at hl hk ⊢
      rw [hl, hk, resize_qualify]
  | keySpace name =>
    obtain ⟨hl, rfl, htc, hk⟩ := ht
    have hn : (next ⟨sect, .keySpace name⟩ c).sect = sect := by simp [Reader.next, hsp, hclose, reject]
    rw [hn]
    refine following_reject hx (.expected "'='" s.line) ?_ htc hl ?_
    · change onKeySpace (Args.remove k) (s.fetch c) = _
      simp [onKeySpace, State.fetch, hsp, hclose]
    · simp only at hl hk ⊢
      rw [hl, hk, resize_qualify]
  | _ => cases hcut

theorem isEol_of_cutOff (h : r.cutOff c = true) : isEol c = true := by
  unfold Reader.cutOff at h
  split at h
  all_goals first | exact h | cases h

theorem following_step (hx : Following x r) (hc : c ≠ L '\r') (hw : c ≠ weof) (hk : r.atKey k c = false) :
    Following (step (Args.remove k) x c) (r.copyNext c) ∧
      (step (Args.remove k) x c).2.configFileOutput = x.2.configFileOutput ++ r.echoed c := by
  cases hcut : r.cutOff c with
  | true =>
    have hq : r.quotedHash c = false := by
      obtain ⟨sect, phase⟩ := r
      cases phase with
      | value name kept blanks q => cases hcut
      | _ => rfl
    simp only [Reader.copyNext, hcut, if_true, Reader.echoed, hq, Bool.false_eq_true, if_false]
    exact following_cut hx (isEol_of_cutOff hcut) hcut
  | false =>
    have hf : Follows (Args.remove k) x.2 r c (step (Args.remove k) x c) :=
      step_follows (quiet_remove hx.tracks hx.eof hc hw hcut hk) hx.tracks
    have hm : (step (Args.remove k) x c).2.matchedKey = false := by
      by_contra h
      have hmatch := hf.matched (by simpa using h)
      rw [hx.unmatched] at hmatch
      cases hmatch
    simp only [Reader.copyNext, hcut, Bool.false_eq_true, if_false]
    refine ⟨⟨hf.tracks, hf.eof, hm⟩, ?_⟩
    rw [hf.output, written_remove hx.unmatched]

theorem following_finish (hx : Following x r) (hk : r.atKey k weof = false) :
    removedOf k x [] = x.2.configFileOutput ++ if r.cutOff weof then [weof] else [] := by
  obtain ⟨st, s⟩ := x
  have hq : QuietEof (Args.remove k) s r := by
    intro name hp
    have hkey : s.isKey (Args.remove k) = r.atKey k weof := atKey_eq_remove hx.tracks hp (by decide)
    simp [hkey, hk]
  obtain ⟨y, hy, hends⟩ := finish_follows rfl hq hx.tracks
  have hdone : removedOf k (st, s) [] = y.configFileOutput := by
    change (finish (Args.remove k) (st, s)).2.configFileOutput = _
    rw [hy, checkEof_remove hends.eof]
  rw [hdone, hends.output]
  rfl

theorem following_run (hx : Following x r) (hcr : L '\r' ∉ text) (hw : weof ∉ text)
    (hc : r.copies k text = true) : removedOf k x text = x.2.configFileOutput ++ text := by
  induction text generalizing x r with
  | nil =>
    simp only [Reader.copies, Bool.and_eq_true, Bool.not_eq_true'] at hc
    rw [following_finish hx hc.2, hc.1]
    simp
  | cons c text ih =>
    simp only [Reader.copies, Bool.and_eq_true, Bool.not_eq_true'] at hc
    obtain ⟨⟨hq, hk⟩, hrest⟩ := hc
    simp only [mem_cons, not_or] at hcr hw
    obtain ⟨hstep, hout⟩ := following_step hx (Ne.symm hcr.1) (Ne.symm hw.1) hk
    rw [removedOf_cons, ih hstep hcr.2 hw.2 hrest, hout]
    simp [Reader.echoed, hq]

theorem following_start (k : ConfigKey) : Following (newLine (Args.remove k) State.initial) start := by
  obtain ⟨ht, heq⟩ := tracks_newLine (Args.remove k)
  exact ⟨ht, by rw [heq]; rfl, by rw [heq]; rfl⟩

section Count

/-- The machine of update mode at a place that a text without carriage returns can
bring it to. -/
structure Sane (x : Status × State) : Prop where
  comment : x.1 ≠ .reading .commentReturn
  leading : x.1 ≠ .reading .leadingReturn
  first : x.2.firstMatchedKey = false
  escape : x.1 = .reading .escape → x.2.ch = L '\\'

/-- At most the character `c` is added to what there is of `d` in the output. -/
structure Adds (d c : WChar) (out : List WChar) (y : Status × State) : Prop where
  sane : Sane y
  count : y.2.configFileOutput.count d ≤ out.count d + [c].count d

theorem sane_reading {site : Site} (hf : s.firstMatchedKey = false)
    (hsite : site ≠ .commentReturn ∧ site ≠ .leadingReturn ∧ site ≠ .escape) : Sane (.reading site, s) :=
  ⟨by simpa using hsite.1, by simpa using hsite.2.1, hf, fun h => absurd (Status.reading.inj h) hsite.2.2⟩

theorem count_put (s : State) (t : List WChar) :
    (s.put t).configFileOutput.count d = s.configFileOutput.count d + t.count d :=
  count_append

variable {out : List WChar}

theorem adds_checkEof (hf : s.firstMatchedKey = false)
    (hcount : s.configFileOutput.count d ≤ out.count d + [c].count d) :
    Adds d c out (checkEof (Args.remove k) s) := by
  cases he : s.eof with
  | true =>
    rw [checkEof_remove he]
    exact ⟨⟨by simp, by simp, hf, by simp⟩, hcount⟩
  | false =>
    have heq : checkEof (Args.remove k) s = (.reading .leadingSpace, s) := by simp [checkEof, he]
    rw [heq]
    exact ⟨sane_reading hf (by decide), hcount⟩

theorem count_flush (hd : d ≠ L '\n') :
    (s.flush (Args.remove k)).configFileOutput.count d ≤
      s.configFileOutput.count d + [s.ch].count d := by
  have hn : List.count d [L '\n', s.ch] = [s.ch].count d := count_cons_of_ne (Ne.symm hd)
  rw [flush_eq, count_put]
  apply Nat.add_le_add_left
  split
  · split
    · rw [hn]
    · exact Nat.le_refl _
  · exact Nat.zero_le _

theorem adds_newLineLoop (hd : d ≠ L '\n') (hf : s.firstMatchedKey = false) :
    Adds d s.ch s.configFileOutput (newLineLoop (Args.remove k) s) := by
  have hcount := count_flush (k := k) (s := s) hd
  have hff : (s.flush (Args.remove k)).firstMatchedKey = false := by rw [flush_eq]; exact hf
  unfold newLineLoop
  simp only
  split
  · exact ⟨sane_reading hff (by decide), hcount⟩
  · exact adds_checkEof hff hcount

theorem adds_newLine (hd : d ≠ L '\n') (hf : s.firstMatchedKey = false) :
    Adds d s.ch s.configFileOutput (newLine (Args.remove k) s) := by
  unfold newLine
  split
  · exact adds_newLineLoop hd hf
  · exact adds_newLineLoop (s := { s with line := s.line + 1 }) hd hf

theorem adds_invalidLine (hd : d ≠ L '\n') (hf : s.firstMatchedKey = false) :
    Adds d s.ch s.configFileOutput (invalidLine (Args.remove k) s) := by
  unfold invalidLine
  simp only [Args.remove, Bool.not_true, Bool.false_eq_true, if_false]
  split
  · exact ⟨sane_reading hf (by decide), Nat.le_add_right _ _⟩
  · exact adds_newLine hd hf

section

variable (hf : s.firstMatchedKey = false)
include hf

theorem adds_reject (w : Warning) :
    Adds d s.ch s.configFileOutput (rejectCharacter (Args.remove k) s w) := by
  rw [rejectCharacter_remove]
  exact ⟨sane_reading hf (by decide), Nat.le_of_eq (count_put _ _)⟩

theorem adds_echo {site : Site} (hsite : site ≠ .commentReturn ∧ site ≠ .leadingReturn ∧ site ≠ .escape) :
    Adds d s.ch s.configFileOutput (.reading site, s.echo (Args.remove k)) :=
  ⟨sane_reading hf hsite, Nat.le_of_eq (count_put _ _)⟩

theorem adds_valueNext
    (hcount : s.configFileOutput.count d ≤ out.count d + [c].count d) : Adds d c out (valueNext s) := by
  unfold valueNext
  split
  · exact ⟨sane_reading hf (by decide), hcount⟩
  · exact ⟨sane_reading hf (by decide), hcount⟩

end

theorem adds_valueDone (hd : d ≠ L '\n') (hf : s.firstMatchedKey = false) :
    Adds d s.ch s.configFileOutput (valueDone (Args.remove k) s) := by
  have hwarned : ∃ s', (if s.inQuote then s.warn (.expected "\"" s.line) else s) = s' ∧ s'.ch = s.ch ∧
      s'.firstMatchedKey = false ∧ s'.configFileOutput = s.configFileOutput := by
    refine ⟨_, rfl, ?_⟩
    split <;> exact ⟨rfl, hf, rfl⟩
  obtain ⟨s', heq, hch, hf', hout⟩ := hwarned
  unfold valueDone
  simp only [heq]
  rw [← hch, ← hout]
  split
  · exact adds_invalidLine hd hf'
  rw [if_neg (by simp [hf'])]
  split
  · exact adds_newLine (s := { s' with
      value := resize s'.value s'.trimmedLength
      settings := s'.settings ++ [⟨cstr s'.key, cstr (resize s'.value s'.trimmedLength), s'.line⟩] }) hd hf'
  · exact adds_newLine hd hf'

theorem adds_valueLoop (hd : d ≠ L '\n') (hf : s.firstMatchedKey = false) :
    Adds d s.ch s.configFileOutput (valueLoop (Args.remove k) s) := by
  unfold valueLoop
  by_cases hend : s.ch = weof ∨ s.ch = L '\n' ∨ s.ch = L '\r'
  · rw [if_pos hend]
    exact adds_valueDone hd hf
  rw [if_neg hend]
  simp only
  -- A `#` is not written here but at the end of the value, anything else at once.
  by_cases hhash : s.ch = L '#' ∧ !s.inQuote
  · obtain ⟨hch, hq⟩ := hhash
    have h1 : L '#' ≠ L '"' := by decide
    have h2 : L '#' ≠ L '\\' := by decide
    simp only [hch, bne_self_eq_false, Bool.and_false, Bool.false_eq_true, if_false, h1, h2, hq, and_self,
      if_true]
    rw [← hch]
    exact adds_valueDone (s := { s with trailingComment := true }) hd hf
  · obtain ⟨s', heq, hch, hf', hinq, hcount⟩ : ∃ s',
        (if !s.firstMatchedKey && !s.matchedKey && s.ch != L '#' then s.echo (Args.remove k) else s) = s' ∧
          s'.ch = s.ch ∧ s'.firstMatchedKey = false ∧ s'.inQuote = s.inQuote ∧
          s'.configFileOutput.count d ≤ s.configFileOutput.count d + [s.ch].count d := by
      refine ⟨_, rfl, ?_⟩
      split
      · exact ⟨rfl, hf, rfl, Nat.le_of_eq (count_put _ _)⟩
      · exact ⟨rfl, hf, rfl, Nat.le_add_right _ _⟩
    have hhash' : ¬ (s'.ch = L '#' ∧ !s'.inQuote) := by
      rw [hch, hinq]
      exact hhash
    rw [heq]
    by_cases hquote : s'.ch = L '"'
    · rw [if_pos hquote]
      exact adds_valueNext (s := { s' with inQuote := !s'.inQuote }) hf' hcount
    rw [if_neg hquote]
    by_cases hback : s'.ch = L '\\'
    · rw [if_pos hback]
      exact ⟨⟨by simp, by simp, hf', fun _ => hback⟩, hcount⟩
    rw [if_neg hback, if_neg hhash']
    exact adds_valueNext (s := s'.push (narrow s'.ch)) hf' hcount

theorem count_dropLastLine (out : List WChar) : (dropLastLine out).count d ≤ out.count d := by
  unfold dropLastLine
  split
  · rw [count_reverse]
    have h := count_reverse (l := out) (a := d)
    rw [← h]
    refine List.Sublist.count_le d ?_
    exact (drop_sublist _ _).trans (dropWhile_sublist _)
  · exact Nat.le_refl _

theorem adds_valueSpace (hd : d ≠ L '\n') (hf : s.firstMatchedKey = false) :
    Adds d s.ch s.configFileOutput (onValueSpace (Args.remove k) s) := by
  unfold onValueSpace
  split
  · exact adds_echo hf (by decide)
  · have hun : s.unwritten (Args.remove k) = false := unwritten_remove k s
    unfold beginValue
    simp only [hun, Bool.false_and]
    refine ⟨(adds_valueLoop hd rfl).sane, ?_⟩
    refine Nat.le_trans (adds_valueLoop hd rfl).count ?_
    apply Nat.add_le_add_right
    simp only
    split
    · exact count_dropLastLine _
    · exact Nat.le_refl _

section

variable (hf : s.firstMatchedKey = false)
include hf

theorem adds_escape (hch : s.ch = L '\\') (hc : c ≠ L '\r') :
    Adds d c s.configFileOutput (onEscape (Args.remove k) s c) := by
  have hcount : (s.put (s.escapeEcho (Args.remove k) c)).configFileOutput.count d ≤
      s.configFileOutput.count d + [c].count d := by
    rw [count_put]
    apply Nat.add_le_add_left
    unfold State.escapeEcho
    split
    · exact Nat.le_refl _
    · exact Nat.zero_le _
  cases hesc : escapeText c with
  | some text =>
    obtain ⟨n, heq⟩ := onEscape_some (a := Args.remove k) hch hc hesc
    rw [heq]
    exact ⟨sane_reading hf (by decide), hcount⟩
  | none =>
    have hgo : L '\\' ≠ weof ∧ L '\\' ≠ L '\n' := by decide
    have hinv : invalidLine (Args.remove k)
        ((s.put (s.escapeEcho (Args.remove k) c)).warn (.invalidEscape c s.line)) =
        (.reading .invalidLine, (s.put (s.escapeEcho (Args.remove k) c)).warn (.invalidEscape c s.line)) := by
      simp [invalidLine, Args.remove, State.warn, State.put, hch, hgo]
    rw [onEscape_none hc hesc, if_neg (by simp [hf]), hinv]
    exact ⟨sane_reading hf (by decide), hcount⟩

theorem adds_commentEnd
    (hcount : s.configFileOutput.count d ≤ out.count d + [c].count d) :
    Adds d c out (commentEnd (Args.remove k) s) := by
  unfold commentEnd
  by_cases hnl : s.ch = L '\n'
  · simp only [if_pos hnl]
    rw [if_neg (fun h => h.1 hnl)]
    exact adds_checkEof (s := { s with line := s.line + 1, trailingComment := false }) hf hcount
  · simp only [if_neg hnl]
    split
    · exact ⟨sane_reading hf (by decide), hcount⟩
    · exact adds_checkEof (s := { s with trailingComment := false }) hf hcount

theorem adds_comment (hc : s.ch ≠ L '\r') :
    Adds d s.ch s.configFileOutput (onComment (Args.remove k) s) := by
  obtain ⟨s', heq, hch, hf', hcount⟩ : ∃ s',
      (if s.ch ≠ weof then s.echo (Args.remove k) else s) = s' ∧ s'.ch = s.ch ∧
        s'.firstMatchedKey = false ∧
        s'.configFileOutput.count d ≤ s.configFileOutput.count d + [s.ch].count d := by
    refine ⟨_, rfl, ?_⟩
    split
    · exact ⟨rfl, hf, Nat.le_of_eq (count_put _ _)⟩
    · exact ⟨rfl, hf, Nat.le_add_right _ _⟩
  unfold onComment
  simp only [heq]
  rw [if_neg (by rw [hch]; exact hc)]
  exact adds_commentEnd hf' hcount

end

theorem adds_invalid (hd : d ≠ L '\n') (hf : s.firstMatchedKey = false) (hc : s.ch ≠ L '\r') :
    Adds d s.ch s.configFileOutput (onInvalidLine (Args.remove k) s) := by
  unfold onInvalidLine
  by_cases hend : s.ch ≠ weof ∧ s.ch ≠ L '\n'
  · have hgo : s.ch ≠ weof ∧ s.ch ≠ L '\n' ∧ s.ch ≠ L '\r' := ⟨hend.1, hend.2, hc⟩
    have hch : (s.echo (Args.remove k)).ch = s.ch := rfl
    simp only [if_pos hgo, hch]
    rw [if_pos hend]
    exact adds_echo hf (by decide)
  · have hgo : ¬ (s.ch ≠ weof ∧ s.ch ≠ L '\n' ∧ s.ch ≠ L '\r') := fun h => hend ⟨h.1, h.2.1⟩
    simp only [if_neg hgo]
    rw [if_neg hend]
    exact adds_newLine hd hf

theorem adds_leadingSpace (hd : d ≠ L '\n') (hf : s.firstMatchedKey = false) (hc : s.ch ≠ L '\r') :
    Adds d s.ch s.configFileOutput (onLeadingSpace (Args.remove k) s) := by
  have hinsert : insertBeforeSection (Args.remove k) s = some s := by
    simp [insertBeforeSection, unwritten_remove]
  unfold onLeadingSpace
  rw [hinsert, if_neg hc]
  split
  · exact adds_echo hf (by decide)
  split
  · exact adds_newLineLoop hd hf
  split
  · exact adds_newLineLoop (s := { s with line := s.line + 1 }) hd hf
  split
  · exact adds_newLineLoop hd hf
  split
  · exact adds_echo hf (by decide)
  split
  · exact adds_reject hf _
  · refine ⟨sane_reading ?_ (by decide), ?_⟩
    · exact hf
    · exact Nat.le_of_eq (count_put s [s.ch])

theorem adds_keySpace (hf : s.firstMatchedKey = false) :
    Adds d s.ch s.configFileOutput (onKeySpace (Args.remove k) s) := by
  unfold onKeySpace
  split
  · exact adds_echo hf (by decide)
  split
  · exact adds_reject hf _
  · exact adds_echo hf (by decide)

theorem adds_step (hx : Sane x) (hd : d ≠ L '\n') (hc : c ≠ L '\r') :
    Adds d c x.2.configFileOutput (step (Args.remove k) x c) := by
  obtain ⟨st, s⟩ := x
  have hf := hx.first
  cases st with
  | done n => exact ⟨hx, Nat.le_add_right _ _⟩
  | failFast => exact ⟨hx, Nat.le_add_right _ _⟩
  | reading site =>
    cases site with
    | commentReturn => exact absurd rfl hx.comment
    | leadingReturn => exact absurd rfl hx.leading
    | comment => exact adds_comment (s := s.fetch c) hf hc
    | leadingSpace => exact adds_leadingSpace (s := s.fetch c) hd hf hc
    | sectionFirst =>
      change Adds d c _ (onSectionFirst (Args.remove k) (s.fetch c))
      unfold onSectionFirst
      split
      · exact adds_reject (s := s.fetch c) hf _
      · exact ⟨sane_reading hf (by decide),
          Nat.le_of_eq (count_put (s.fetch c) [c])⟩
    | sectionName =>
      change Adds d c _ (onSectionName (Args.remove k) (s.fetch c))
      unfold onSectionName
      split
      · exact ⟨sane_reading hf (by decide),
          Nat.le_of_eq (count_put (s.fetch c) [c])⟩
      split
      · exact adds_reject (s := s.fetch c) hf _
      · exact adds_echo (s := s.fetch c) hf (by decide)
    | sectionSpace =>
      change Adds d c _ (onSectionSpace (Args.remove k) (s.fetch c))
      unfold onSectionSpace
      split
      · exact adds_echo (s := s.fetch c) hf (by decide)
      split
      · exact adds_newLine (s := { s.fetch c with sectionLength := s.key.length }) hd hf
      split
      · exact adds_newLine
          (s := { s.fetch c with trailingComment := true, sectionLength := s.key.length }) hd hf
      · exact adds_reject (s := s.fetch c) hf _
    | keyName =>
      change Adds d c _ (onKeyName (Args.remove k) (s.fetch c))
      unfold onKeyName
      split
      · exact ⟨sane_reading hf (by decide),
          Nat.le_of_eq (count_put (s.fetch c) [c])⟩
      · exact adds_keySpace (s := s.fetch c) hf
    | keySpace => exact adds_keySpace (s := s.fetch c) hf
    | valueSpace => exact adds_valueSpace (s := s.fetch c) hd hf
    | value => exact adds_valueLoop (s := s.fetch c) hd hf
    | escape => exact adds_escape hf (hx.escape rfl) hc
    | invalidLine => exact adds_invalid (s := s.fetch c) hd hf hc

theorem sane_eof (hx : Sane x) : Sane (x.1, { x.2 with eof := true }) :=
  ⟨hx.comment, hx.leading, hx.first, hx.escape⟩

theorem adds_readEof (hx : Sane x) (hd : d ≠ L '\n') (hw : d ≠ weof) :
    Sane (readEof (Args.remove k) x) ∧
      (readEof (Args.remove k) x).2.configFileOutput.count d ≤ x.2.configFileOutput.count d := by
  have h := adds_step (k := k) (c := weof) (sane_eof hx) hd (by decide)
  have hzero : [weof].count d = 0 := count_eq_zero_of_not_mem (by simpa using hw)
  refine ⟨h.sane, ?_⟩
  have hle := h.count
  rwa [hzero] at hle

theorem count_removedOf_nil (hx : Sane x) (hd : d ≠ L '\n') (hw : d ≠ weof) :
    (removedOf k x []).count d ≤ x.2.configFileOutput.count d := by
  obtain ⟨h1, h2⟩ := adds_readEof (k := k) hx hd hw
  obtain ⟨h3, h4⟩ := adds_readEof (k := k) h1 hd hw
  obtain ⟨-, h5⟩ := adds_readEof (k := k) h3 hd hw
  exact Nat.le_trans h5 (Nat.le_trans h4 h2)

theorem count_removedOf (hx : Sane x) (hd : d ≠ L '\n') (hw : d ≠ weof) (hcr : L '\r' ∉ text) :
    (removedOf k x text).count d ≤ x.2.configFileOutput.count d + text.count d := by
  induction text generalizing x with
  | nil => exact Nat.le_trans (count_removedOf_nil hx hd hw) (Nat.le_add_right _ _)
  | cons c text ih =>
    simp only [mem_cons, not_or] at hcr
    have hstep := adds_step (k := k) hx hd (Ne.symm hcr.1)
    have hrest := ih hstep.sane hcr.2
    have hcons : ([c] ++ text).count d = [c].count d + text.count d := count_append
    rw [removedOf_cons, ← singleton_append, hcons]
    have hcount := hstep.count
    omega

end Count

section Faithful

theorem tracks_valueSpace {name : List UInt8} (ht : Tracks x r) (hp : r.phase = .valueSpace name) :
    x.1 = .reading .valueSpace ∧ x.2.key = r.qualify name := by
  obtain ⟨sect, phase⟩ := r
  simp only at hp
  subst hp
  exact ⟨ht.2.1, ht.2.2.2⟩

def State.cutLine (s : State) (c : WChar) : State :=
  { s.fetch c with
    firstMatchedKey := false, matchedKey := true, configFileOutput := dropLastLine s.configFileOutput,
    value := [], trimmedLength := 0, inQuote := false }

theorem step_atKey (ht : Tracks x r) (hk : r.atKey k c = true) (eof : Bool) :
    step (Args.remove k) (x.1, { x.2 with eof := eof }) c =
      valueLoop (Args.remove k) (State.cutLine { x.2 with eof := eof } c) := by
  obtain ⟨name, hphase, -⟩ := atKey_phase hk
  obtain ⟨hsite, hkey⟩ := tracks_valueSpace ht hphase
  have hmatch : isHSpace c = false ∧ k.matches (cstr x.2.key) = true := by
    rw [hkey]
    simpa [atKey, hphase] using hk
  obtain ⟨st, s⟩ := x
  simp only at hsite hmatch
  subst hsite
  change onValueSpace (Args.remove k) (State.fetch { s with eof := eof } c) = _
  have hun : (State.fetch { s with eof := eof } c).unwritten (Args.remove k) = false := unwritten_remove k _
  have hup : ((Args.remove k).updateConfigFile && (Args.remove k).removeKey) = true := rfl
  have hisKey : (Args.remove k).outputKey.elim false (fun k => k.matches (cstr s.key)) = true := hmatch.2
  have hsp : isHSpace (State.fetch { s with eof := eof } c).ch = false := hmatch.1
  have hkey' : (State.fetch { s with eof := eof } c).key = s.key := rfl
  simp only [onValueSpace, hsp, Bool.false_eq_true, if_false, beginValue, hun, hup, hkey', hisKey,
    Bool.false_and, Bool.true_and, if_true]
  rfl

theorem count_dropLastLine_lt {a b : List WChar} (hb : L '\n' ∉ b) (hn : L '\n' ∈ a ++ L '=' :: b) :
    (dropLastLine (a ++ L '=' :: b)).count (L '=') < (a ++ L '=' :: b).count (L '=') := by
  have ha : L '\n' ∈ a := by
    rcases mem_append.mp hn with h | h
    · exact h
    · rcases mem_cons.mp h with h | h
      · exact absurd h (by decide)
      · exact absurd h hb
  obtain ⟨a', b', rfl, hb'⟩ : ∃ a' b', a = a' ++ L '\n' :: b' ∧ L '\n' ∉ b' := by
    obtain ⟨l, m, hlm, hl⟩ := eq_append_cons_of_mem (mem_reverse.mpr ha)
    refine ⟨m.reverse, l.reverse, ?_, by simpa using hl⟩
    have h := congrArg List.reverse hlm
    simpa using h
  have hlast : L '\n' ∉ b' ++ L '=' :: b := by
    simp only [mem_append, mem_cons, not_or]
    exact ⟨hb', by decide, hb⟩
  rw [append_assoc, cons_append, dropLastLine_append hlast, count_append,
    count_cons_of_ne (by decide), count_append, count_cons_self]
  omega

/-- Before a value the output ends in the `=` of its line and blanks. -/
def Reader.afterEquals (r : Reader) (out : List WChar) : Prop :=
  ∀ name, r.phase = .valueSpace name → ∃ a b, out = a ++ L '=' :: b ∧ L '\n' ∉ b

theorem afterEquals_next {out : List WChar} (h : r.afterEquals out) :
    (r.copyNext c).afterEquals (out ++ r.echoed c) := by
  intro name hp
  unfold Reader.copyNext at hp
  split at hp
  · cases hp
  -- Only a blank after the `=`, or the `=` itself, leads to this phase.
  have hkey : c = L '=' ∨ (isHSpace c = true ∧ r.phase = .valueSpace name) := by
    obtain ⟨sect, phase⟩ := r
    have hrej : ∀ r' : Reader, (r'.reject c).phase ≠ .valueSpace name := by
      intro r' h
      unfold reject at h
      split at h <;> cases h
    cases phase with
    | lineStart =>
      simp only [Reader.next] at hp
      repeat' split at hp
      all_goals cases hp
    | comment =>
      simp only [Reader.next] at hp
      split at hp <;> cases hp
    | invalid =>
      simp only [Reader.next] at hp
      split at hp <;> cases hp
    | sectionFirst =>
      simp only [Reader.next] at hp
      split at hp
      · cases hp
      · exact absurd hp (hrej _)
    | sectionName name' =>
      simp only [Reader.next] at hp
      split at hp
      · cases hp
      split at hp
      · cases hp
      · exact absurd hp (hrej _)
    | sectionSpace name' =>
      simp only [Reader.next] at hp
      split at hp
      · cases hp
      split at hp
      · cases hp
      split at hp
      · cases hp
      · exact absurd hp (hrej _)
    | keyName name' =>
      simp only [Reader.next] at hp
      split at hp
      · cases hp
      split at hp
      · cases hp
      split at hp
      · rename_i heq
        exact .inl heq
      · exact absurd hp (hrej _)
    | keySpace name' =>
      simp only [Reader.next] at hp
      split at hp
      · cases hp
      split at hp
      · rename_i heq
        exact .inl heq
      · exact absurd hp (hrej _)
    | valueSpace name' =>
      simp only [Reader.next] at hp
      split at hp
      · rename_i hsp
        exact .inr ⟨hsp, hp⟩
      · simp only [nextValue] at hp
        repeat' split at hp
        all_goals cases hp
    | value name' kept blanks q =>
      simp only [Reader.next, nextValue] at hp
      repeat' split at hp
      all_goals cases hp
    | escape name' value q =>
      simp only [Reader.next] at hp
      split at hp <;> cases hp
  have hecho : c ≠ L '#' → r.echoed c = [c] := by
    intro hc
    simp [Reader.echoed, quotedHash_eq_false hc]
  rcases hkey with rfl | ⟨hsp, hphase⟩
  · exact ⟨out, [], by rw [hecho (by decide)], by simp⟩
  · obtain ⟨a, b, rfl, hb⟩ := h name hphase
    refine ⟨a, b ++ [c], by rw [hecho (hash_of_isHSpace hsp)]; simp, ?_⟩
    have hne : c ≠ L '\n' := ne_of_test hsp (by decide)
    simp only [mem_append, mem_singleton, not_or]
    exact ⟨hb, Ne.symm hne⟩

theorem atKey_ends (hk : r.atKey k c = true) (hc : isEol c = true ∨ c = L '#') :
    ∃ p ∈ r.emit c, k.matches p.1 = true := by
  obtain ⟨name, hphase, hmatch⟩ := atKey_phase hk
  obtain ⟨sect, phase⟩ := r
  simp only at hphase
  subst hphase
  refine ⟨(cstr (qualify ⟨sect, .valueSpace name⟩ name), []), ?_, hmatch⟩
  have hemit : (isEol c || c == L '#') = true := by
    rcases hc with h | h <;> simp [h]
  simp [Reader.emit, hemit, Reader.pending]

theorem valueNext_output (s : State) : (valueNext s).2.configFileOutput = s.configFileOutput := by
  obtain ⟨n, heq⟩ := valueNext_eq s
  rw [heq]

theorem valueLoop_cutLine (hc : c ≠ L '\r') (he : isEol c = false) (hh : c ≠ L '#') :
    (valueLoop (Args.remove k) (s.cutLine c)).2.configFileOutput = dropLastLine s.configFileOutput := by
  have hne := ne_of_not_isEol (c := c) (by simp [he])
  have hch : (s.cutLine c).ch = c := rfl
  have hend : ¬ ((s.cutLine c).ch = weof ∨ (s.cutLine c).ch = L '\n' ∨ (s.cutLine c).ch = L '\r') := by
    rw [hch]
    tauto
  have hmatch : (!(s.cutLine c).firstMatchedKey && !(s.cutLine c).matchedKey &&
      (s.cutLine c).ch != L '#') = false := rfl
  unfold valueLoop
  rw [if_neg hend, hmatch]
  simp only [Bool.false_eq_true, if_false, hch]
  split
  · exact valueNext_output _
  split
  · rfl
  rw [if_neg (fun h => hh h.1)]
  exact valueNext_output _

variable {q : Reader}

/-- A line of the key is never copied: the line is cut off if there is one before
it, and otherwise its value is malformed and the value's first character is lost. -/
theorem not_copied_atKey (hx : Following x r) (hk : r.atKey k c = true)
    (hq : L '\n' ∉ x.2.configFileOutput → q = r) (hout : r.afterEquals x.2.configFileOutput)
    (hcr : L '\r' ∉ c :: text) (hw : c ≠ weof) (hK : ∀ p ∈ q.reports (c :: text), k.matches p.1 = false) :
    removedOf k x (c :: text) ≠ x.2.configFileOutput ++ c :: text := by
  intro heq
  simp only [mem_cons, not_or] at hcr
  have hc : c ≠ L '\r' := Ne.symm hcr.1
  have hstep : step (Args.remove k) x c = valueLoop (Args.remove k) (x.2.cutLine c) := by
    have h := step_atKey (k := k) (c := c) hx.tracks hk x.2.eof
    exact h
  rw [removedOf_cons, hstep] at heq
  by_cases hn : L '\n' ∈ x.2.configFileOutput
  · obtain ⟨name, hphase, -⟩ := atKey_phase hk
    obtain ⟨a, b, hab, hb⟩ := hout name hphase
    have hadds := adds_valueLoop (k := k) (d := L '=') (s := x.2.cutLine c) (by decide) rfl
    have hle := count_removedOf (k := k) (d := L '=') hadds.sane (by decide) (by decide) hcr.2
    have hlt : (x.2.cutLine c).configFileOutput.count (L '=') <
        x.2.configFileOutput.count (L '=') := by
      change (dropLastLine x.2.configFileOutput).count (L '=') < _
      rw [hab] at hn ⊢
      exact count_dropLastLine_lt hb hn
    have hcount := hadds.count
    have hcons : ([c] ++ text).count (L '=') = [c].count (L '=') + text.count (L '=') := count_append
    rw [heq, count_append, ← singleton_append, hcons] at hle
    have hch : (x.2.cutLine c).ch = c := rfl
    rw [hch] at hcount
    omega
  · obtain rfl := hq hn
    by_cases hend : isEol c = true ∨ c = L '#'
    · obtain ⟨p, hp, hmatch⟩ := atKey_ends hk hend
      have hno := hK p (by rw [reports_cons]; exact mem_append_left _ hp)
      rw [hmatch] at hno
      cases hno
    · have he : isEol c = false := by
        cases h : isEol c with
        | true => exact absurd (.inl h) hend
        | false => rfl
      have hh : c ≠ L '#' := fun h => hend (.inr h)
      have hcn := (ne_of_not_isEol (c := c) (by simp [he])).2
      have hsane := (adds_valueLoop (k := k) (d := L '=') (s := x.2.cutLine c) (by decide) rfl).sane
      have hle := count_removedOf (k := k) (d := c) hsane hcn hw hcr.2
      have hdrop : dropLastLine x.2.configFileOutput = x.2.configFileOutput := by
        unfold dropLastLine
        rw [if_neg hn]
      rw [heq, valueLoop_cutLine hc he hh, hdrop, count_append, count_cons_self] at hle
      omega

theorem not_copied_atEof (hx : Following x r) (hk : r.atKey k weof = true)
    (hq : L '\n' ∉ x.2.configFileOutput → q = r) (hout : r.afterEquals x.2.configFileOutput)
    (hK : ∀ p ∈ q.reports [], k.matches p.1 = false) : removedOf k x [] ≠ x.2.configFileOutput := by
  intro heq
  by_cases hn : L '\n' ∈ x.2.configFileOutput
  · obtain ⟨name, hphase, -⟩ := atKey_phase hk
    obtain ⟨a, b, hab, hb⟩ := hout name hphase
    have hread : readEof (Args.remove k) x =
        valueLoop (Args.remove k) (State.cutLine { x.2 with eof := true } weof) :=
      step_atKey hx.tracks hk true
    have hadds := adds_valueLoop (k := k) (d := L '=')
      (s := State.cutLine { x.2 with eof := true } weof) (by decide) rfl
    rw [← hread] at hadds
    obtain ⟨h1, h2⟩ := adds_readEof (k := k) (d := L '=') hadds.sane (by decide) (by decide)
    obtain ⟨-, h3⟩ := adds_readEof (k := k) (d := L '=') h1 (by decide) (by decide)
    have hlt : (dropLastLine x.2.configFileOutput).count (L '=') <
        x.2.configFileOutput.count (L '=') := by
      rw [hab] at hn ⊢
      exact count_dropLastLine_lt hb hn
    have hcount : (readEof (Args.remove k) x).2.configFileOutput.count (L '=') ≤
        (dropLastLine x.2.configFileOutput).count (L '=') := hadds.count
    have hfinal : (removedOf k x []).count (L '=') ≤
        (readEof (Args.remove k) x).2.configFileOutput.count (L '=') := Nat.le_trans h3 h2
    rw [heq] at hfinal
    omega
  · obtain rfl := hq hn
    obtain ⟨p, hp, hmatch⟩ := atKey_ends hk (.inl (by decide))
    have hpend : p ∈ q.reports [] := by simpa [Reader.emit, isEol] using hp
    have hno := hK p hpend
    rw [hmatch] at hno
    cases hno

theorem copies_of_copied (hx : Following x r) (hs : Sane x)
    (hq : L '\n' ∉ x.2.configFileOutput → q = r) (hout : r.afterEquals x.2.configFileOutput)
    (hcr : L '\r' ∉ text) (hw : weof ∉ text) (hK : ∀ p ∈ q.reports text, k.matches p.1 = false)
    (heq : removedOf k x text = x.2.configFileOutput ++ text) : r.copies k text = true := by
  induction text generalizing x r q with
  | nil =>
    rw [append_nil] at heq
    cases hk : r.atKey k weof with
    | true => exact absurd heq (not_copied_atEof hx hk hq hout hK)
    | false =>
      rw [following_finish hx hk] at heq
      cases hcut : r.cutOff weof with
      | true => simp [hcut] at heq
      | false => simp [Reader.copies, hcut, hk]
  | cons c text ih =>
    have hcc : c ≠ L '\r' := fun h => hcr (h ▸ mem_cons_self)
    have hcw : c ≠ weof := fun h => hw (h ▸ mem_cons_self)
    cases hk : r.atKey k c with
    | true => exact absurd heq (not_copied_atKey hx hk hq hout hcr hcw hK)
    | false =>
      obtain ⟨hstep, hstepOut⟩ := following_step hx hcc hcw hk
      have hsane := (adds_step (k := k) (d := L '#') hs (by decide) hcc).sane
      have hcr' : L '\r' ∉ text := fun h => hcr (mem_cons_of_mem _ h)
      cases hhash : r.quotedHash c with
      | true =>
        have hc : c = L '#' := by
          by_contra h
          rw [quotedHash_eq_false h] at hhash
          cases hhash
        subst hc
        have hle := count_removedOf (k := k) (d := L '#') hsane (by decide) (by decide) hcr'
        rw [removedOf_cons] at heq
        rw [heq, hstepOut, count_append, count_cons_self] at hle
        simp only [Reader.echoed, hhash, if_true, append_nil] at hle
        omega
      | false =>
        have hecho : r.echoed c = [c] := by simp [Reader.echoed, hhash]
        have hout' := afterEquals_next (c := c) hout
        rw [hecho] at hstepOut hout'
        rw [removedOf_cons, ← singleton_append, ← append_assoc, ← hstepOut] at heq
        rw [← hstepOut] at hout'
        have hrest := ih (q := q.next c) hstep hsane ?_ hout' hcr'
          (fun h => hw (mem_cons_of_mem _ h)) ?_ heq
        · simp [Reader.copies, hhash, hk, hrest]
        · intro hn
          rw [hstepOut] at hn
          simp only [mem_append, mem_singleton, not_or] at hn
          have heol : isEol c = false := by
            simp [isEol, hcw, Ne.symm hn.2]
          have hcut : r.cutOff c = false := by
            by_contra h
            have := isEol_of_cutOff (by simpa using h)
            rw [heol] at this
            cases this
          rw [hq hn.1]
          simp [Reader.copyNext, hcut]
        · intro p hp
          refine hK p ?_
          rw [reports_cons]
          exact mem_append_right _ hp

end Faithful

/-- Removing a key that parse mode does not report gives the text back exactly when
every character of it is copied. -/
theorem remove_eq_self_iff (k : ConfigKey) {text : List WChar} (hcr : L '\r' ∉ text) (hw : weof ∉ text)
    (hK : ∀ t ∈ (parseConfigFile Args.parse text).2.settings, k.matches t.name = false) :
    remove k text = text ↔ start.copies k text = true := by
  have hinit := (tracks_newLine (Args.remove k)).2
  have hout : (newLine (Args.remove k) State.initial).2.configFileOutput = [] := by rw [hinit]; rfl
  have hremove : remove k text = removedOf k (newLine (Args.remove k) State.initial) text := rfl
  rw [hremove]
  constructor
  · intro heq
    have hs : Sane (newLine (Args.remove k) State.initial) := by
      rw [hinit]
      exact sane_reading rfl (by decide)
    refine copies_of_copied (q := start) (following_start k) hs (fun _ => rfl) ?_ hcr hw ?_ ?_
    · intro name hp
      cases hp
    · intro p hp
      rw [← parse_eq_reports hcr] at hp
      obtain ⟨t, ht, rfl⟩ := mem_map.mp hp
      exact hK t ht
    · rw [heq, hout, nil_append]
  · intro hc
    rw [following_run (following_start k) hcr hw hc, hout, nil_append]

theorem remove_eq_self_swap :
    let k : ConfigKey := ⟨[bytes "wsl2.memory"], []⟩
    let text := wide "[wsl2]\nbabyshark\nswap = \"0\\\n\" # half\n"
    remove k text = text :=
  (remove_eq_self_iff _ (by decide) (by decide) (by decide)).mpr
    (by rfl)

/-- The `#` between the quotes is not written. -/
theorem remove_drops_quoted_hash :
    ¬ ∀ (k : ConfigKey) (text : List WChar), L '\r' ∉ text →
      (∀ t ∈ (parseConfigFile Args.parse text).2.settings, k.matches t.name = false) →
        (parseConfigFile (Args.remove k) text).2.configFileOutput = text := by
  intro h
  have hbad := h ⟨[bytes "wsl2.memory"], []⟩ (wide "[wsl2]\nkernelCommandLine = \"a#b\"\n")
    (by decide) (by decide)
  revert hbad
  decide

end WslPlus.ConfigFile
