import WslPlus.ConfigFile.Tracking

/-!
# The end of the file, and parse mode as a whole

Past the end of the file the machine reads at most twice more before it stops.
With the step lemma this gives the meaning of parse mode: on a text without
carriage returns it reports the settings of the reader.
-/

namespace WslPlus.ConfigFile

open Reader

variable {a : Args} {s s' : State} {r : Reader} {st : Status} {x y : Status × State}

/-- The state in which the machine tests for the end of the file. Only a
character that was still needed is written: the end-of-file value itself. -/
structure Ends (a : Args) (s : State) (r : Reader) (y : State) : Prop where
  eof : y.eof = true
  updated : y.outputKeyValueUpdated = s.outputKeyValueUpdated
  length : y.sectionLength = (r.next weof).sect.length
  key : resize y.key y.sectionLength = (r.next weof).sect
  pairs : pairsOf y.settings = pairsOf s.settings ++ r.pending.toList
  output : y.configFileOutput =
    s.configFileOutput ++ if a.updateConfigFile && r.cutOff weof then [weof] else []

def Status.stopped : Status → Bool
  | .reading _ => false
  | _ => true

theorem step_of_stopped (h : x.1.stopped = true) (c : WChar) : step a x c = x := by
  obtain ⟨st, s⟩ := x
  cases st with
  | reading site => exact absurd h (by simp [Status.stopped])
  | done n => rfl
  | failFast => rfl

theorem readEof_of_stopped (h : x.1.stopped = true) (he : x.2.eof = true) : readEof a x = x := by
  unfold readEof
  obtain ⟨st, s⟩ := x
  have hs : { s with eof := true } = s := by
    cases s
    simp_all
  simp only [hs]
  exact step_of_stopped h weof

theorem writeNewKeyValue_stopped (a : Args) (s : State) :
    (writeNewKeyValue a s).1.stopped = true ∧ (writeNewKeyValue a s).2.eof = s.eof := by
  unfold writeNewKeyValue
  split
  · exact ⟨rfl, rfl⟩
  · refine ⟨rfl, ?_⟩
    simp only [State.put]
    split <;> split <;> rfl

theorem checkEof_stopped (he : s.eof = true) :
    (checkEof a s).1.stopped = true ∧ (checkEof a s).2.eof = true := by
  unfold checkEof
  simp only [he, if_true]
  split
  · exact ⟨(writeNewKeyValue_stopped a s).1, (writeNewKeyValue_stopped a s).2.trans he⟩
  · exact ⟨rfl, he⟩

theorem finish_of_readEof (he : s'.eof = true) (h : readEof a x = checkEof a s') :
    finish a x = checkEof a s' := by
  obtain ⟨h1, h2⟩ := checkEof_stopped (a := a) he
  rw [finish, h, readEof_of_stopped h1 h2, readEof_of_stopped h1 h2]

theorem finish_of_readEof_readEof (he : s'.eof = true)
    (h : readEof a (readEof a x) = checkEof a s') : finish a x = checkEof a s' := by
  obtain ⟨h1, h2⟩ := checkEof_stopped (a := a) he
  rw [finish, h, readEof_of_stopped h1 h2]

theorem newLineLoop_weof (hch : s.ch = weof) : newLineLoop a s = checkEof a s := by
  have hne : weof ≠ L '#' := by decide
  simp [newLineLoop, State.flush, hch, hne]

theorem newLine_weof (hch : s.ch = weof) (ht : s.trailingComment = false) :
    newLine a s = checkEof a { s with line := s.line + 1 } := by
  rw [newLine_of_not_trailing ht]
  exact newLineLoop_weof hch

theorem invalidLine_weof (hskip : a.skipInvalidLines = true) (hch : s.ch = weof)
    (ht : s.trailingComment = false) : invalidLine a s = checkEof a { s with line := s.line + 1 } := by
  rw [← newLine_weof hch ht]
  simp [invalidLine, hskip, hch]

theorem readEof_invalid (ht : s.trailingComment = false) :
    readEof a (.reading .invalidLine, s) =
      checkEof a { s with eof := true, ch := weof, line := s.line + 1 } := by
  have heq : onInvalidLine a { s with eof := true, ch := weof } =
      newLine a { s with eof := true, ch := weof } := by simp [onInvalidLine]
  exact heq.trans (newLine_weof rfl ht)

theorem finish_reject (s' : State) (w : Warning) (r' : Reader) (hskip : a.skipInvalidLines = true)
    (hread : readEof a x = rejectCharacter a s' w) (hch : s'.ch = weof) (he : s'.eof = true)
    (ht : s'.trailingComment = false) (hs : s'.settings = s.settings)
    (hu : s'.outputKeyValueUpdated = s.outputKeyValueUpdated)
    (ho : s'.configFileOutput = s.configFileOutput) (hp : r.pending = none)
    (hcut : r.cutOff weof = true) (hn : r.next weof = r'.reject weof)
    (hl : s'.sectionLength = r'.sect.length) (hr : resize s'.key s'.sectionLength = r'.sect) :
    ∃ y, finish a x = checkEof a y ∧ Ends a s r y := by
  have hpairs : pairsOf s'.settings = pairsOf s.settings ++ r.pending.toList := by
    rw [hs, hp]
    simp
  have hsect : (r.next weof).sect = r'.sect := by rw [hn]; rfl
  cases hupd : a.updateConfigFile with
  | false =>
    have heq : rejectCharacter a s' w = checkEof a { s'.warn w with line := s'.line + 1 } := by
      unfold rejectCharacter
      simp only [hupd]
      exact invalidLine_weof hskip hch ht
    refine ⟨{ s'.warn w with line := s'.line + 1 }, ?_, he, hu, ?_, ?_, hpairs, ?_⟩
    · exact finish_of_readEof he (hread.trans heq)
    · rw [hsect]
      exact hl
    · rw [hsect]
      exact hr
    · simpa [hupd, State.warn] using ho
  | true =>
    have hzero : (0 : WChar) ≠ weof ∧ (0 : WChar) ≠ L '\n' := by decide
    have heq : rejectCharacter a s' w =
        (.reading .invalidLine, { (s'.warn w).put [weof] with ch := 0 }) := by
      simp [rejectCharacter, invalidLine, hupd, hskip, State.warn, State.put, hch, hzero]
    refine ⟨{ (s'.warn w).put [weof] with eof := true, ch := weof, line := s'.line + 1 }, ?_, rfl,
      hu, ?_, ?_, hpairs, ?_⟩
    · refine finish_of_readEof_readEof rfl ?_
      rw [hread, heq]
      exact readEof_invalid ht
    · rw [hsect]
      exact hl
    · rw [hsect]
      exact hr
    · change s'.configFileOutput ++ [weof] = _
      simp [ho, hupd, hcut]

def QuietEof (a : Args) (s : State) (r : Reader) : Prop :=
  ∀ name, r.phase = .valueSpace name →
    (s.unwritten a && s.isKey a) = false ∧ (a.updateConfigFile && a.removeKey && s.isKey a) = false

theorem finish_value (s' : State) {name : List UInt8} (kept blanks : List UInt8) (inQuote : Bool)
    (hskip : a.skipInvalidLines = true) (hread : readEof a x = valueLoop a s')
    (hch : s'.ch = weof) (he : s'.eof = true) (ht : s'.trailingComment = false)
    (hs : s'.settings = s.settings) (hu : s'.outputKeyValueUpdated = s.outputKeyValueUpdated)
    (ho : s'.configFileOutput = s.configFileOutput) (hl : s'.sectionLength = r.sect.length)
    (hk : s'.key = r.qualify name) (hv : s'.value = kept ++ blanks)
    (htrim : s'.trimmedLength = kept.length) (hq : s'.inQuote = inQuote)
    (hf : s'.firstMatchedKey = false) (hm : s'.matchedKey = false)
    (hcut : r.cutOff weof = false) (hn : (r.next weof).sect = r.sect)
    (hp : r.pending = if inQuote then none else some (cstr (r.qualify name), cstr kept)) :
    ∃ y, finish a x = checkEof a y ∧ Ends a s r y := by
  have hloop : valueLoop a s' = valueDone a s' := by simp [valueLoop, hch]
  have hkey : resize s'.key s'.sectionLength = (r.next weof).sect := by
    rw [hk, hl, resize_qualify, hn]
  have hlen : s'.sectionLength = (r.next weof).sect.length := by rw [hn, hl]
  have hout : s'.configFileOutput =
      s.configFileOutput ++ if a.updateConfigFile && r.cutOff weof then [weof] else [] := by
    simp [ho, hcut]
  cases inQuote with
  | true =>
    have hdone : valueDone a s' = checkEof a
        { s'.warn (.expected "\"" s'.line) with line := s'.line + 1 } := by
      have hinv := invalidLine_weof (s := s'.warn (.expected "\"" s'.line)) hskip hch ht
      simp only [State.warn] at hinv ⊢
      rw [← hinv]
      simp [valueDone, hq, hf, hm, State.warn]
    refine ⟨{ s'.warn (.expected "\"" s'.line) with line := s'.line + 1 }, ?_, he, hu, hlen, hkey,
      ?_, hout⟩
    · exact finish_of_readEof he (hread.trans (hloop.trans hdone))
    · change pairsOf s'.settings = _
      simp [hs, hp]
  | false =>
    have hval : resize s'.value s'.trimmedLength = kept := by simp [hv, htrim, resize]
    have hdone : valueDone a s' = checkEof a { s' with
        value := kept, settings := s'.settings ++ [⟨cstr s'.key, cstr kept, s'.line⟩],
        line := s'.line + 1 } := by
      have hnew : valueDone a s' = newLine a { s' with
          value := kept, settings := s'.settings ++ [⟨cstr s'.key, cstr kept, s'.line⟩] } := by
        simp [valueDone, hq, hf, hm, hval]
      exact hnew.trans (newLine_weof hch ht)
    refine ⟨{ s' with
        value := kept, settings := s'.settings ++ [⟨cstr s'.key, cstr kept, s'.line⟩],
        line := s'.line + 1 }, ?_, he, hu, hlen, hkey, ?_, hout⟩
    · exact finish_of_readEof he (hread.trans (hloop.trans hdone))
    · simp [pairsOf, hs, hp, hk]

abbrev State.atEnd (s : State) : State := { s with eof := true, ch := weof }

theorem finish_follows (hskip : a.skipInvalidLines = true) (h : QuietEof a s r)
    (ht : Tracks (st, s) r) : ∃ y, finish a (st, s) = checkEof a y ∧ Ends a s r y := by
  obtain ⟨sect, phase⟩ := r
  have hends : ∀ (y : State) (sect' : List UInt8), readEof a (st, s) = checkEof a y →
      y.eof = true → y.outputKeyValueUpdated = s.outputKeyValueUpdated →
      (next ⟨sect, phase⟩ weof).sect = sect' → y.sectionLength = sect'.length →
      resize y.key y.sectionLength = sect' → y.settings = s.settings →
      pending ⟨sect, phase⟩ = none → cutOff ⟨sect, phase⟩ weof = false →
      y.configFileOutput = s.configFileOutput →
      ∃ y, finish a (st, s) = checkEof a y ∧ Ends a s ⟨sect, phase⟩ y := by
    intro y sect' hread he hu hn hl hr hs hp hcut ho
    refine ⟨y, finish_of_readEof he hread, he, hu, ?_, ?_, ?_, ?_⟩
    · rw [hn, hl]
    · rw [hn, hr]
    · simp [hs, hp]
    · simp [ho, hcut]
  have halpha : isalpha weof = false := by decide
  have halnum : isalnum weof = false := by decide
  have hsp : isHSpace weof = false := by decide
  have heol : isEol weof = true := by decide
  cases phase with
  | lineStart =>
    obtain ⟨hl, rfl, htc, hr⟩ := ht
    refine hends s.atEnd sect ?_ rfl rfl rfl hl hr rfl rfl rfl rfl
    change onLeadingSpace a s.atEnd = _
    have heq : onLeadingSpace a s.atEnd =
        newLineLoop a s.atEnd := by simp [onLeadingSpace, hsp]
    exact heq.trans (newLineLoop_weof rfl)
  | comment =>
    obtain ⟨hl, rfl, hr⟩ := ht
    refine hends { s.atEnd with trailingComment := false } sect ?_ rfl rfl rfl
      hl hr rfl rfl rfl rfl
    have h1 : weof ≠ L '\r' := by decide
    have h2 : weof ≠ L '\n' := by decide
    change onComment a s.atEnd = _
    simp [onComment, commentEnd, h1, h2]
  | invalid =>
    obtain ⟨hl, rfl, htc, hr⟩ := ht
    exact hends { s.atEnd with line := s.line + 1 } sect (readEof_invalid htc)
      rfl rfl rfl hl hr rfl rfl rfl rfl
  | sectionFirst =>
    obtain ⟨hl, rfl, htc, hr⟩ := ht
    refine finish_reject s.atEnd (.invalidSection s.line)
      ⟨sect, .sectionFirst⟩ hskip ?_ rfl rfl htc rfl rfl rfl rfl rfl rfl hl hr
    change onSectionFirst a s.atEnd = _
    simp [onSectionFirst, halpha]
  | sectionName name =>
    obtain ⟨hl, rfl, htc, hk⟩ := ht
    refine finish_reject s.atEnd (.expected "']'" s.line)
      (spoil ⟨sect, .sectionName name⟩ name) hskip ?_ rfl rfl htc rfl rfl rfl rfl rfl ?_ ?_ ?_
    · change onSectionName a s.atEnd = _
      have hb : weof ≠ L ']' := by decide
      simp [onSectionName, halnum, hb]
    · have hb : weof ≠ L ']' := by decide
      simp [next, halnum, hb]
    · exact hl.trans (resize_length _ _).symm
    · simp only [spoil] at hl hk ⊢
      rw [hl, hk]
  | sectionSpace name =>
    obtain ⟨hl, rfl, htc, hk⟩ := ht
    refine hends
      { s.atEnd with sectionLength := s.key.length, line := s.line + 1 } name ?_ rfl rfl ?_ (congrArg List.length hk)
      ((resize_self s.key).trans hk) rfl rfl rfl rfl
    · change onSectionSpace a s.atEnd = _
      have heq : onSectionSpace a s.atEnd =
          newLine a { s.atEnd with sectionLength := s.key.length } := by
        simp [onSectionSpace, hsp]
      exact heq.trans (newLine_weof rfl htc)
    · simp [next, hsp, heol]
  | keyName name =>
    obtain ⟨hl, rfl, htc, hk⟩ := ht
    refine finish_reject s.atEnd (.expected "'='" s.line)
      ⟨sect, .keyName name⟩ hskip ?_ rfl rfl htc rfl rfl rfl rfl rfl ?_ hl ?_
    · change onKeyName a s.atEnd = _
      have hb : weof ≠ L '=' := by decide
      simp [onKeyName, onKeySpace, halnum, hsp, hb]
    · have hb : weof ≠ L '=' := by decide
      simp [next, halnum, hsp, hb]
    · simp only [] at hl hk ⊢
      rw [hl, hk, resize_qualify]
  | keySpace name =>
    obtain ⟨hl, rfl, htc, hk⟩ := ht
    refine finish_reject s.atEnd (.expected "'='" s.line)
      ⟨sect, .keySpace name⟩ hskip ?_ rfl rfl htc rfl rfl rfl rfl rfl ?_ hl ?_
    · change onKeySpace a s.atEnd = _
      have hb : weof ≠ L '=' := by decide
      simp [onKeySpace, hsp, hb]
    · have hb : weof ≠ L '=' := by decide
      simp [next, hsp, hb]
    · simp only [] at hl hk ⊢
      rw [hl, hk, resize_qualify]
  | valueSpace name =>
    obtain ⟨hl, rfl, htc, hk⟩ := ht
    obtain ⟨hfirst, hmatch⟩ := h name rfl
    refine finish_value { s with
        eof := true, ch := weof, firstMatchedKey := false, matchedKey := false, value := [],
        trimmedLength := 0, inQuote := false } [] [] false
      hskip ?_ rfl rfl htc rfl rfl rfl hl hk rfl rfl rfl rfl rfl rfl ?_ rfl
    · change onValueSpace a s.atEnd = _
      have hf : (State.unwritten a s.atEnd &&
          a.outputKey.elim false fun k => k.matches (cstr s.key)) = false := hfirst
      have hm : (a.updateConfigFile && a.removeKey &&
          a.outputKey.elim false fun k => k.matches (cstr s.key)) = false := hmatch
      unfold onValueSpace beginValue
      simp only [hsp, hf, hm]
      rfl
    · simp [next, nextValue, hsp, heol]
  | value name kept blanks inQuote =>
    obtain ⟨hl, rfl, htc, hk, hval, htrim, hq, hf, hm⟩ := ht
    refine finish_value s.atEnd kept blanks inQuote hskip rfl rfl rfl htc rfl rfl rfl
      hl hk hval htrim hq hf hm rfl ?_ ?_
    · simp [next, nextValue, heol]
    · cases inQuote <;> rfl
  | escape name value inQuote =>
    obtain ⟨hl, rfl, htc, hk, hval, hq, hch, hf, hm⟩ := ht
    have hgo : L '\\' ≠ weof ∧ L '\\' ≠ L '\n' := by decide
    have hesc : escapeText weof = none := by decide
    have hread : readEof a (.reading .escape, s) = (.reading .invalidLine,
        ({ s with eof := true }).warn (.invalidEscape weof s.line)) := by
      change onEscape a { s with eof := true } weof = _
      have hf' : s.firstMatchedKey = false := hf
      have hch' : s.ch = L '\\' := hch
      rw [onEscape_none (by decide) hesc]
      simp [State.escapeEcho, State.put, State.warn, invalidLine, hskip, hf', hch', hgo]
    refine ⟨{ s.warn (.invalidEscape weof s.line) with
        eof := true, ch := weof, line := s.line + 1 }, ?_, rfl, rfl, ?_, ?_, ?_, ?_⟩
    · refine finish_of_readEof_readEof rfl ?_
      rw [hread]
      exact readEof_invalid htc
    · simpa [next, hesc, State.warn] using hl
    · have hkey : resize s.key s.sectionLength = sect := by
        simp only [] at hl hk
        rw [hl, hk, resize_qualify]
      simpa [next, hesc, State.warn] using hkey
    · simp [State.warn, pending]
    · simp [State.warn, cutOff]

theorem tracks_newLine (a : Args) : Tracks (newLine a State.initial) start ∧
    newLine a State.initial = (.reading .leadingSpace, { State.initial with line := 1 }) := by
  have heq : newLine a State.initial = (.reading .leadingSpace, { State.initial with line := 1 }) := by
    have hne : (0 : WChar) ≠ L '#' := by decide
    simp [newLine, newLineLoop, State.flush, checkEof, State.initial, hne]
  rw [heq]
  exact ⟨⟨rfl, rfl, rfl, rfl⟩, rfl⟩

def Args.parse : Args :=
  { skipInvalidLines := true, hasFile := true, outputKey := none, removeKey := false }

/-- The pairs that parse mode hands to `SetConfig`. -/
def parse (text : List WChar) : List Pair := pairsOf (parseConfigFile Args.parse text).2.settings

theorem quiet_parse {c : WChar} (he : s.eof = false) (hc : c ≠ L '\r') : Quiet Args.parse s r c where
  skip := rfl
  eof := he
  noReturn := hc
  whole := fun hu => absurd hu (by decide)
  noInsert := fun _ _ => rfl
  noMatch := fun _ _ _ => ⟨rfl, rfl⟩

theorem scan_parse (text : List WChar) (ht : Tracks x r) (he : x.2.eof = false) (hcr : L '\r' ∉ text) :
    Tracks (scan Args.parse x text) (r.after text) ∧ (scan Args.parse x text).2.eof = false ∧
      pairsOf (scan Args.parse x text).2.settings = pairsOf x.2.settings ++ r.emits text := by
  induction text generalizing x r with
  | nil => exact ⟨ht, he, by simp [scan]⟩
  | cons c text ih =>
    have hc : c ≠ L '\r' := fun h => hcr (h ▸ List.mem_cons_self)
    have hf : Follows Args.parse x.2 r c (step Args.parse x c) := step_follows (quiet_parse he hc) ht
    obtain ⟨h1, h2, h3⟩ := ih hf.tracks hf.eof fun h => hcr (List.mem_cons_of_mem _ h)
    refine ⟨h1, h2, ?_⟩
    change pairsOf (scan Args.parse (step Args.parse x c) text).2.settings = _
    rw [h3, hf.pairs]
    simp

theorem parse_eq_reports {text : List WChar} (hcr : L '\r' ∉ text) : parse text = start.reports text := by
  obtain ⟨htr, heq⟩ := tracks_newLine Args.parse
  obtain ⟨h1, h2, h3⟩ := scan_parse text htr (by rw [heq]; rfl) hcr
  have hq : QuietEof Args.parse (scan Args.parse (newLine Args.parse State.initial) text).2
      (start.after text) := fun _ _ => ⟨rfl, rfl⟩
  obtain ⟨y, hy, hends⟩ := finish_follows rfl hq h1
  have hdone : checkEof Args.parse y = (.done 0, y) := by
    have hun : y.unwritten Args.parse = false := rfl
    simp [checkEof, hends.eof, hun]
  have hrun : parseConfigFile Args.parse text = (.done 0, y) := by
    rw [← hdone, ← hy]
    rfl
  rw [parse, hrun, hends.pairs, h3, heq]
  rfl

end WslPlus.ConfigFile
