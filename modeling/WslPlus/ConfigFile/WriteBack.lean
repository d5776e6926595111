import WslPlus.ConfigFile.Write

/-!
# Reading back what was written

The written setting is read back when `writeSafe` holds of the text. The
condition names what goes wrong otherwise: a line that stops inside a header
or a key name before the place of the setting, a continuation with nothing
after it at that place, and a section that is the key's only by prefix.
-/

namespace WslPlus.ConfigFile

open List Reader

variable {k : ConfigKey} {r r' : Reader} {c : WChar} {keep : List UInt8 → Bool}
  {text before rest : List WChar} {x : Status × State}

section Names

def ConfigKey.frontKey (k : ConfigKey) : List UInt8 := k.front.elim [] fun f => f.2.map narrow

theorem map_narrow_widen (s : List UInt8) : (widen s).map narrow = s := by
  simp [widen, Function.comp_def]

theorem isIdent_all {s : List UInt8} (h : isIdent s = true) : ∀ b ∈ s, isalnum b.toUInt16 = true := by
  obtain ⟨b, bs, rfl, hb, hbs⟩ := isIdent_cons h
  intro x hx
  rcases mem_cons.mp hx with rfl | hx
  · exact isalnum_of_isalpha hb
  · exact hbs x hx

theorem not_mem_widen {s : List UInt8} {d : WChar} (h : isIdent s = true)
    (hd : isalnum d = false) : d ∉ widen s := by
  intro hm
  obtain ⟨b, hb, rfl⟩ := mem_map.mp hm
  rw [isIdent_all h b hb] at hd
  exact absurd hd (by simp)

theorem splitName_widen {sectionName keyName : List UInt8} (hs : isIdent sectionName = true)
    (hk : isIdent keyName = true) :
    splitName (widen (sectionName ++ narrow (L '.') :: keyName)) =
      some (widen sectionName, widen keyName) := by
  have hdot : (narrow (L '.')).toUInt16 = L '.' := by decide
  have hw : widen (sectionName ++ narrow (L '.') :: keyName) =
      widen sectionName ++ L '.' :: widen keyName := by simp [widen, hdot]
  have hidx : (widen sectionName ++ L '.' :: widen keyName).findIdx (· == L '.') =
      (widen sectionName).length := by
    have hnone : ∀ d ∈ widen sectionName, (d == L '.') = false := by
      intro d hd
      have hne : d ≠ L '.' := by
        rintro rfl
        exact not_mem_widen hs (by decide) hd
      simpa using hne
    rw [findIdx_append, findIdx_eq_length_of_false hnone]
    simp [findIdx_cons]
  have h1 : 0 < (widen sectionName).length := by
    obtain ⟨b, bs, rfl, -, -⟩ := isIdent_cons hs
    simp [widen]
  have h2 : 0 < (widen keyName).length := by
    obtain ⟨b, bs, rfl, -, -⟩ := isIdent_cons hk
    simp [widen]
  rw [hw, splitName, hidx]
  have h3 : (widen sectionName ++ L '.' :: widen keyName).length =
      (widen sectionName).length + (widen keyName).length + 1 := by
    simp
    omega
  rw [h3]
  rw [if_neg (by omega), if_neg (by omega), if_neg (by omega)]
  simp

theorem front_wellFormed (h : k.wellFormed) :
    ∃ sectionName keyName, k.front = some (widen sectionName, widen keyName) ∧
      isIdent sectionName = true ∧ isIdent keyName = true ∧ k.frontKey = keyName ∧
      k.matches (cstr (sectionName ++ narrow (L '.') :: keyName)) = true := by
  obtain ⟨hne, hall⟩ := h
  cases hnames : k.names with
  | nil => exact absurd hnames hne
  | cons name rest =>
    obtain ⟨sectionName, keyName, hname, hs, hk⟩ := hall name (by simp [hnames])
    have hfront : k.front = some (widen sectionName, widen keyName) := by
      rw [ConfigKey.front, hnames, hname]
      simp [splitName_widen hs hk]
    have hcstr : cstr (sectionName ++ narrow (L '.') :: keyName) =
        sectionName ++ narrow (L '.') :: keyName := by
      rw [cstr, takeWhile_eq_self_iff]
      intro b hb
      have hz : b ≠ 0 := by
        rintro rfl
        rcases mem_append.mp hb with hb | hb
        · exact absurd (isIdent_all hs 0 hb) (by decide)
        · rcases mem_cons.mp hb with hb | hb
          · exact absurd hb (by decide)
          · exact absurd (isIdent_all hk 0 hb) (by decide)
      simp [hz]
    refine ⟨sectionName, keyName, hfront, hs, hk, ?_, ?_⟩
    · simp [ConfigKey.frontKey, hfront, map_narrow_widen]
    · rw [hcstr]
      simp [ConfigKey.matches, hnames, hname, strcasecmp]

end Names

section Before

def Reader.clear (k : ConfigKey) (r : Reader) : Prop :=
  match r.phase with
  | .value name _ _ _ => k.matches (cstr (r.qualify name)) = false
  | .escape name _ _ => k.matches (cstr (r.qualify name)) = false
  | _ => True

theorem clear_nextValue {name kept blanks : List UInt8} {inQuote : Bool}
    (h : k.matches (cstr (r.qualify name)) = false) : (r.nextValue name kept blanks inQuote c).clear k := by
  unfold nextValue
  split
  · trivial
  split
  · exact h
  split
  · exact h
  split
  · trivial
  split
  · exact h
  · exact h

theorem clear_next (h : r.clear k) (hk : r.atKey k c = false) : (r.next c).clear k := by
  obtain ⟨sect, phase⟩ := r
  cases phase with
  | lineStart =>
    simp only [Reader.next]
    repeat' split
    all_goals trivial
  | comment =>
    simp only [Reader.next]
    split <;> trivial
  | invalid =>
    simp only [Reader.next]
    split <;> trivial
  | sectionFirst =>
    simp only [Reader.next, reject]
    repeat' split
    all_goals trivial
  | sectionName name =>
    simp only [Reader.next, reject]
    repeat' split
    all_goals trivial
  | sectionSpace name =>
    simp only [Reader.next, reject]
    repeat' split
    all_goals trivial
  | keyName name =>
    simp only [Reader.next, reject]
    repeat' split
    all_goals trivial
  | keySpace name =>
    simp only [Reader.next, reject]
    repeat' split
    all_goals trivial
  | valueSpace name =>
    simp only [Reader.next]
    split
    · trivial
    · rename_i hsp
      refine clear_nextValue ?_
      simpa [atKey, hsp] using hk
  | value name kept blanks inQuote => exact clear_nextValue h
  | escape name value inQuote =>
    simp only [Reader.next]
    split
    · exact h
    · trivial

theorem clear_pending (h : r.clear k) (hk : r.atKey k weof = false) :
    ∀ n ∈ names r.pending.toList, k.matches n = false := by
  obtain ⟨sect, phase⟩ := r
  cases phase with
  | valueSpace name =>
    have hsp : isHSpace weof = false := by decide
    simpa [names, pending, atKey, hsp] using hk
  | value name kept blanks inQuote =>
    cases inQuote with
    | true => simp [names, pending]
    | false =>
      have h' : k.matches (cstr (qualify ⟨sect, .value name kept blanks false⟩ name)) = false := h
      simpa [names, pending] using h'
  | _ => simp [names, pending]

theorem clear_emit (h : r.clear k) (hk : r.atKey k c = false) :
    ∀ n ∈ names (r.emit c), k.matches n = false := by
  unfold emit
  split
  · rename_i hc
    have hsp : isHSpace c = false := by
      simp only [Bool.or_eq_true, beq_iff_eq, isEol_iff] at hc
      rcases hc with (rfl | rfl) | rfl <;> decide
    have heof : isHSpace weof = false := by decide
    refine clear_pending h ?_
    obtain ⟨sect, phase⟩ := r
    cases phase with
    | valueSpace name => simpa [atKey, hsp, heof] using hk
    | _ => rfl
  · simp [names]

theorem away_emits (h : r.clear k) (ha : r.away k text) :
    (r.after text).clear k ∧ ∀ n ∈ names (r.emits text), k.matches n = false := by
  induction text generalizing r with
  | nil => exact ⟨h, by simp [names]⟩
  | cons c text ih =>
    obtain ⟨hk, -, ha⟩ := ha
    obtain ⟨h1, h2⟩ := ih (clear_next h hk) ha
    refine ⟨h1, ?_⟩
    rw [emits_cons, names_append]
    intro n hn
    rcases mem_append.mp hn with hn | hn
    · exact clear_emit h hk n hn
    · exact h2 n hn

theorem unquoted_nothing (r : Reader) (text : List WChar) : r.unquoted (fun _ => false) text = true := by
  induction text generalizing r with
  | nil => rfl
  | cons c text ih =>
    have hany : (r.valueName.any fun _ => false) = false := by cases r.valueName <;> rfl
    simp [unquoted, hany, ih]

theorem mem_copied (h : c ∈ r.copied text) : c ∈ text := by
  induction text generalizing r with
  | nil => exact h
  | cons d text ih =>
    rw [copied, mem_append] at h
    rcases h with h | h
    · split at h
      · exact absurd h (by simp)
      · exact mem_cons.mpr (.inl (by simpa using h))
    · exact mem_cons_of_mem _ (ih h)

theorem scan_before {place : Place} (hp : start.place k text = (place, before, rest))
    (hw : start.whole before = true) :
    text = before ++ rest ∧ (start.after before).atPlace k place rest ∧
      ∃ x, scan (Args.write k) (newLine (Args.write k) State.initial) text =
          scan (Args.write k) x rest ∧
        Copying x (start.after before) ∧ x.2.outputKeyValueUpdated = false ∧
        x.2.configFileOutput = start.copied before := by
  obtain ⟨ht, ha, hat⟩ := place_spec hp
  obtain ⟨hc, hu, ho⟩ := scan_copying (k := k) (copying_start (Args.write k)) hw (.inr ha)
  have hinit := (tracks_newLine (Args.write k)).2
  refine ⟨ht, hat, _, ?_, hc, hu.trans (by rw [hinit]; rfl), ho.trans (by rw [hinit]; rfl)⟩
  rw [ht]
  simp [scan]

theorem names_before (ha : start.away k before) :
    (start.after before).clear k ∧
      ∀ n ∈ names (start.emits (start.copied before)), k.matches n = false := by
  obtain ⟨h1, h2⟩ := away_emits (r := start) (k := k) trivial ha
  obtain ⟨-, -, hn⟩ := copied_like (.same start) before (unquoted_nothing start before)
  refine ⟨h1, ?_⟩
  rw [← hn]
  exact h2

end Before

section Places

theorem reports_value (sect name : List UInt8) {v blanks : List WChar} {d : WChar}
    (hv : readsBack v = true) (hb : blanks.all isHSpace = true) (hd : d = L '\n' ∨ d = L '#') (w : List WChar) :
    Reader.reports ⟨sect, .valueSpace name⟩ (v ++ blanks ++ d :: w) =
      (cstr (qualify ⟨sect, .lineStart⟩ name), v.map narrow) ::
        Reader.reports ⟨sect, if d = L '#' then .comment else .lineStart⟩ w := by
  obtain ⟨hh, he⟩ := after_value sect name hv hb
  have hp := hh.pending (cstr_readsBack hv)
  obtain ⟨hnl, hhash⟩ := hh.next
  rw [reports_append, he, nil_append, reports_cons]
  have hne : L '\n' ≠ L '#' := by decide
  have heol : isEol (L '\n') = true := by decide
  rcases hd with rfl | rfl
  · rw [hnl, if_neg hne]
    simp [emit, heol, hp]
  · rw [hhash, if_pos rfl]
    simp [emit, hp]

theorem reports_value_end (sect name : List UInt8) {v blanks : List WChar}
    (hv : readsBack v = true) (hb : blanks.all isHSpace = true) :
    Reader.reports ⟨sect, .valueSpace name⟩ (v ++ blanks) =
      [(cstr (qualify ⟨sect, .lineStart⟩ name), v.map narrow)] := by
  obtain ⟨hh, he⟩ := after_value sect name hv hb
  rw [reports, he, hh.pending (cstr_readsBack hv)]
  rfl

theorem reports_setting {key : List UInt8} (sect : List UInt8) {v : List WChar}
    (hk : isIdent key = true) (hv : readsBack v = true) (w : List WChar) :
    Reader.reports ⟨sect, .lineStart⟩ (widen key ++ L '=' :: v ++ L '\n' :: w) =
      (cstr (qualify ⟨sect, .lineStart⟩ key), v.map narrow) ::
        Reader.reports ⟨sect, .lineStart⟩ w := by
  obtain ⟨h1, h2⟩ := after_key sect hk
  have hassoc : widen key ++ L '=' :: v ++ L '\n' :: w =
      (widen key ++ [L '=']) ++ (v ++ [] ++ L '\n' :: w) := by simp
  rw [hassoc, reports_append, h1, h2, reports_value sect key hv rfl (.inl rfl) w]
  have hne : L '\n' ≠ L '#' := by decide
  simp [hne]

def outputOf (k : ConfigKey) (x : Status × State) (text : List WChar) : List WChar :=
  (finish (Args.write k) (scan (Args.write k) x text)).2.configFileOutput

theorem update_eq_outputOf (k : ConfigKey) (text : List WChar) :
    update k text = outputOf k (newLine (Args.write k) State.initial) text := rfl

theorem outputOf_congr {y : Status × State} (h : scan (Args.write k) x text =
    scan (Args.write k) y rest) : outputOf k x text = outputOf k y rest := by
  rw [outputOf, h, outputOf]

theorem update_replace (hp : start.place k text = (.replace, before, rest))
    (hw : start.whole before = true) (hcr : L '\r' ∉ text) (hwe : weof ∉ text) :
    (oldValue false false rest = [] ∧
        update k text = start.copied before ++ k.value ++ oldBlanks false false [] rest) ∨
      ∃ d rest' y, oldValue false false rest = d :: rest' ∧ (d = L '\n' ∨ d = L '#') ∧
        Copying y ⟨(start.after before).sect, if d = L '#' then .comment else .lineStart⟩ ∧
        y.2.outputKeyValueUpdated = true ∧
        y.2.configFileOutput =
          start.copied before ++ k.value ++ oldBlanks false false [] rest ++ [d] ∧
        update k text = outputOf k y rest' := by
  obtain ⟨ht, hat, x, hscan, hx, hu, ho⟩ := scan_before hp hw
  obtain ⟨hr, htc, henter⟩ := enter_replacing hx hat hu
  rw [ho] at hr
  have hcr' : L '\r' ∉ rest := fun h => hcr (by rw [ht]; exact mem_append_right _ h)
  have hwe' : weof ∉ rest := fun h => hwe (by rw [ht]; exact mem_append_right _ h)
  -- the machine goes on as if it were inside the value already
  have hout : update k text = outputOf k (oldSite false, x.2.enter) rest := by
    rw [update_eq_outputOf, outputOf_congr hscan]
    cases rest with
    | nil =>
      have hread : readEof (Args.write k) x =
          readEof (Args.write k) (.reading .value, x.2.enter) := henter true
      rw [outputOf, outputOf]
      change (finish _ x).2.configFileOutput = (finish _ (.reading .value, x.2.enter)).2.configFileOutput
      rw [finish, finish, hread]
    | cons c rest =>
      have hstep := henter false
      have he1 : ({ x.2 with eof := false } : State) = x.2 := by rw [← hx.eof]
      have he2 : ({ x.2.enter with eof := false } : State) = x.2.enter := by
        rw [State.enter, hx.eof]
      simp only [he1, he2, headD_cons] at hstep
      refine outputOf_congr ?_
      change scan _ (step _ x c) rest = scan _ (step _ (.reading .value, x.2.enter) c) rest
      rw [← hstep]
  have hesc : false = true → x.2.enter.ch = L '\\' := by simp
  rcases scan_replacing (k := k) hr hesc htc hx.eof hcr' hwe' with
    ⟨hold, y, hy, hyo⟩ | ⟨d, rest', y, hold, hd, hs, hcy, huy, hyo⟩
  · refine .inl ⟨hold, ?_⟩
    rw [hout, outputOf, hy]
    exact hyo
  · refine .inr ⟨d, rest', y, hold, hd, hcy, huy, hyo, ?_⟩
    rw [hout]
    exact outputOf_congr hs

theorem update_insert {sectionName keyName : List WChar}
    (hp : start.place k text = (.insert, before, rest)) (hw : start.whole before = true)
    (hf : k.front = some (sectionName, keyName)) :
    (start.after before).phase = .lineStart ∧ ∃ rest' y, rest = L '[' :: rest' ∧
      Copying y ⟨(start.after before).sect, .sectionFirst⟩ ∧ y.2.outputKeyValueUpdated = true ∧
      y.2.configFileOutput = trimNewlines (start.copied before) ++
        L '\n' :: keyName ++ L '=' :: k.value ++ [L '\n', L '\n'] ++ [L '['] ∧
      update k text = outputOf k y rest' := by
  obtain ⟨-, ⟨hat, rest', rfl⟩, x, hscan, hx, hu, ho⟩ := scan_before hp hw
  obtain ⟨hc, hup, hout⟩ := step_insert hx hat hu hf
  have hphase : (start.after before).phase = .lineStart := by
    simp only [atHeader, Bool.and_eq_true, beq_iff_eq] at hat
    exact hat.1.1
  rw [ho] at hout
  exact ⟨hphase, rest', _, rfl, hc, hup, hout, outputOf_congr hscan⟩

theorem update_append {sectionName keyName : List WChar}
    (hp : start.place k text = (.append, before, rest)) (hw : start.whole before = true)
    (hf : k.front = some (sectionName, keyName)) :
    rest = [] ∧ (start.after before).atKey k weof = false ∧
      update k text = start.copied before ++
        (if (start.after before).cutOff weof then [weof] else []) ++ [L '\n'] ++
        (if inSection k ((start.after before).next weof).sect then [] else
          L '[' :: sectionName ++ [L ']', L '\n']) ++ (keyName ++ L '=' :: k.value) := by
  obtain ⟨-, ⟨hat, rfl⟩, x, hscan, hx, hu, ho⟩ := scan_before hp hw
  obtain ⟨y, hy, hout⟩ := finish_append hx hat hu hf
  refine ⟨rfl, hat, ?_⟩
  rw [update_eq_outputOf, outputOf_congr hscan, ← ho, ← hout, outputOf]
  change (finish _ x).2.configFileOutput = _
  rw [hy]

end Places

section ReadBack

/-- The setting lands on a line of its own, under a section that is the key's.
`matches` compares whole names, where the writer compared a prefix. -/
def Place.safe (k : ConfigKey) (before : List WChar) : Place → Bool
  | .replace => true
  | .insert => !(start.after (trimNewlines (start.copied before))).inEscape &&
      k.matches (cstr ((start.after before).qualify k.frontKey))
  | .append => !(start.after before).inEscape &&
      (!inSection k ((start.after before).next weof).sect ||
        k.matches (cstr (((start.after before).next weof).qualify k.frontKey)))

def writeSafe (k : ConfigKey) (text : List WChar) : Bool :=
  let (place, before, _) := start.place k text
  !text.contains weof && start.whole before && place.safe k before

theorem writeSafe_spec (h : writeSafe k text = true) :
    ∃ place before rest, start.place k text = (place, before, rest) ∧ weof ∉ text ∧
      start.whole before = true ∧ place.safe k before = true := by
  refine ⟨_, _, _, rfl, ?_⟩
  simpa [writeSafe, and_assoc] using h

section

variable (h : Like keep r r')
include h

theorem Like.inEscape : r.inEscape = r'.inEscape := by cases h <;> rfl

theorem Like.cutOff (c : WChar) : r.cutOff c = r'.cutOff c := by
  cases h <;> rfl

theorem Like.sect : r.sect = r'.sect := by cases h <;> rfl

theorem Like.eq_of_phase (hv : r.valueName = none) : r' = r := by
  cases h with
  | same => rfl
  | value => exact absurd hv (by simp [valueName])
  | escape => exact absurd hv (by simp [valueName])

theorem Like.eq_of_valueSpace {name : List UInt8}
    (hv : r.phase = .valueSpace name) : r' = r := by
  cases h with
  | same => rfl
  | value => exact absurd hv (by simp)
  | escape => exact absurd hv (by simp)

end

theorem atKey_phase (h : r.atKey k c = true) :
    ∃ name, r.phase = .valueSpace name ∧
      k.matches (cstr (qualify ⟨r.sect, .lineStart⟩ name)) = true := by
  unfold atKey at h
  split at h
  · rename_i name hphase
    rw [Bool.and_eq_true] at h
    exact ⟨name, hphase, h.2⟩
  · exact absurd h (by simp)

theorem find_first {xs ys : List Pair} {n v : List UInt8}
    (hx : ∀ m ∈ names xs, k.matches m = false) (hn : k.matches n = true) :
    ((xs ++ (n, v) :: ys).find? fun p => k.matches p.1).map Prod.snd = some v := by
  have hnone : xs.find? (fun p => k.matches p.1) = none := by
    rw [find?_eq_none]
    intro p hp
    simp [hx p.1 (mem_map_of_mem hp)]
  simp [find?_append, hnone, hn]

theorem no_return_value (hv : readsBack k.value = true) : L '\r' ∉ k.value := fun h =>
  (readsBack_all hv _ h).2.2.2 rfl

theorem no_return_blanks {blanks : List WChar} (hb : blanks.all isHSpace = true) :
    L '\r' ∉ blanks := fun h => absurd (all_eq_true.mp hb _ h) (by decide)

theorem settled_of_copying {sect : List UInt8} {phase : Phase} (hx : Copying x ⟨sect, phase⟩)
    (hp : phase = .comment ∨ phase = .lineStart ∨ phase = .sectionFirst)
    (hu : x.2.outputKeyValueUpdated = true) : Settled x.2 x := by
  have hsite : x.1 = .reading .comment ∨ x.1 = .reading .leadingSpace ∨
      x.1 = .reading .sectionFirst := by
    rcases hp with rfl | rfl | rfl <;> obtain ⟨-, h, -⟩ := hx.tracks <;> simp [h]
  refine ⟨hu, ⟨[], by simp, by simp⟩, ?_, ?_, ?_⟩ <;>
  · rcases hsite with h | h | h <;> simp [h]

theorem no_return_copied (ht : text = before ++ rest) (hcr : L '\r' ∉ text) :
    L '\r' ∉ start.copied before ∧ L '\r' ∉ rest := by
  subst ht
  exact ⟨fun h => hcr (mem_append_left _ (mem_copied h)),
    fun h => hcr (mem_append_right _ h)⟩

theorem oldValue_suffix (inQuote escaped : Bool) (text : List WChar) :
    oldValue inQuote escaped text <:+ text := by
  induction text generalizing inQuote escaped with
  | nil => exact suffix_refl _
  | cons c text ih =>
    have hcons : ∀ q e, oldValue q e text <:+ c :: text := fun q e =>
      (ih q e).trans (suffix_cons c text)
    rw [oldValue]
    split
    · exact hcons _ _
    split
    · exact suffix_refl _
    split
    · exact hcons _ _
    · exact hcons _ _

theorem after_eofNewline (h : r.inEscape = false) :
    r.after ((if r.cutOff weof then [weof] else []) ++ [L '\n']) =
        ⟨(r.next weof).sect, .lineStart⟩ ∧
      r.emits ((if r.cutOff weof then [weof] else []) ++ [L '\n']) = r.pending.toList := by
  obtain ⟨h1, h2⟩ := next_newline h
  have heol : isEol (L '\n') = true := by decide
  have heof : isEol weof = true := by decide
  have hline : Reader.next ⟨(r.next weof).sect, .lineStart⟩ (L '\n') =
      ⟨(r.next weof).sect, .lineStart⟩ := rfl
  have hemit : Reader.emit ⟨(r.next weof).sect, .lineStart⟩ (L '\n') = [] := rfl
  split
  · simp only [singleton_append, after_cons, after_nil, emits_cons, emits_nil]
    rw [h2, h1, hline, hemit]
    simp [emit, heof]
  · simp [h1, emit, heol]

def Place.lead (k : ConfigKey) (before : List WChar) : Place → List WChar
  | .replace => start.copied before
  | .insert => trimNewlines (start.copied before) ++ [L '\n'] ++ (k.front.elim [] Prod.snd ++ [L '='])
  | .append => start.copied before ++
      ((if (start.after before).cutOff weof then [weof] else []) ++ [L '\n']) ++
      (if inSection k ((start.after before).next weof).sect then [] else
        L '[' :: k.front.elim [] Prod.fst ++ [L ']', L '\n']) ++ (k.front.elim [] Prod.snd ++ [L '='])

def AtEnd (w : List WChar) : Prop := w = [] ∨ ∃ d w', w = d :: w' ∧ (d = L '\n' ∨ d = L '#')

def EndsValue (post : List WChar) : Prop :=
  ∃ blanks w, post = blanks ++ w ∧ blanks.all isHSpace = true ∧ AtEnd w

/-- The reader has come to a value of the key, the first one in the text. -/
structure AtValue (k : ConfigKey) (r : Reader) (lead : List WChar) : Prop where
  reader : ∃ name, start.after lead = ⟨r.sect, .valueSpace name⟩ ∧
    k.matches (cstr (qualify ⟨r.sect, .lineStart⟩ name)) = true
  names : ∀ n ∈ names (start.emits lead), k.matches n = false

theorem atValue_replace (hp : start.place k text = (.replace, before, rest)) :
    AtValue k (start.after before) (Place.lead k before .replace) := by
  obtain ⟨-, ha, hat⟩ := place_spec hp
  obtain ⟨-, hnames⟩ := names_before ha
  have hlike := (copied_like (.same start) before (unquoted_nothing start before)).1
  obtain ⟨name, hphase, hmatch⟩ := atKey_phase hat
  refine ⟨⟨name, ?_, hmatch⟩, hnames⟩
  rw [Place.lead, hlike.eq_of_valueSpace hphase, ← hphase]

section

variable (hk : k.wellFormed)
include hk

theorem atValue_insert (hp : start.place k text = (.insert, before, rest))
    (hs : Place.safe k before .insert = true) :
    AtValue k (start.after before) (Place.lead k before .insert) := by
  obtain ⟨-, ha, hat, -⟩ := place_spec hp
  obtain ⟨-, hnames⟩ := names_before ha
  have hlike := (copied_like (.same start) before (unquoted_nothing start before)).1
  obtain ⟨sectionName, keyName, hfront, -, hkey, hfk, -⟩ := front_wellFormed hk
  simp only [Place.safe, Bool.and_eq_true, Bool.not_eq_true', hfk] at hs
  obtain ⟨hesc, hmatch⟩ := hs
  have hphase : (start.after before).phase = .lineStart := by
    simp only [atHeader, Bool.and_eq_true, beq_iff_eq] at hat
    exact hat.1.1
  have hread : start.after (start.copied before) = ⟨(start.after before).sect, .lineStart⟩ := by
    rw [hlike.eq_of_phase (by simp [valueName, hphase]), ← hphase]
  obtain ⟨hafter, hemits⟩ := after_trimNewlines hread hesc
  obtain ⟨h1, h2⟩ := after_key (start.after before).sect hkey
  refine ⟨⟨keyName, ?_, hmatch⟩, ?_⟩
  · rw [Place.lead, hfront, after_append, hafter]
    exact h1
  · rw [Place.lead, hfront, emits_append, hafter, hemits]
    simpa [h2] using hnames

theorem after_lead_append (hs : Place.safe k before .append = true) :
    ∃ sect name, start.after (Place.lead k before .append) = ⟨sect, .valueSpace name⟩ ∧
      k.matches (cstr (qualify ⟨sect, .lineStart⟩ name)) = true ∧
      start.emits (Place.lead k before .append) = start.emits (start.copied before) ++
        (start.after (start.copied before)).pending.toList := by
  have hlike := (copied_like (.same start) before (unquoted_nothing start before)).1
  obtain ⟨sectionName, keyName, hfront, hsect, hkey, hfk, hname⟩ := front_wellFormed hk
  simp only [Place.safe, Bool.and_eq_true, Bool.not_eq_true', Bool.or_eq_true, hfk] at hs
  obtain ⟨hesc, hmatch⟩ := hs
  have hcut := hlike.cutOff weof
  obtain ⟨hafter, hemits⟩ := after_eofNewline (hlike.inEscape ▸ hesc)
  rw [← hcut, ← (hlike.next weof).sect, ← after_append] at hafter
  rw [← hcut] at hemits
  have hemits' := emits_append start (start.copied before)
    ((if (start.after before).cutOff weof then [weof] else []) ++ [L '\n'])
  rw [hemits] at hemits'
  rw [Place.lead, hfront]
  cases hin : inSection k ((start.after before).next weof).sect with
  | true =>
    obtain ⟨h1, h2⟩ := after_key ((start.after before).next weof).sect hkey
    refine ⟨_, keyName, ?_, hmatch.resolve_left (by simp [hin]), ?_⟩
    · rw [if_pos rfl, append_nil, after_append _ (_ ++ _), hafter]
      exact h1
    · rw [if_pos rfl, append_nil, emits_append _ (_ ++ _), hafter, hemits']
      simpa using h2
  | false =>
    obtain ⟨hha, hhe⟩ := after_header ((start.after before).next weof).sect hsect
    obtain ⟨h1, h2⟩ := after_key sectionName hkey
    have hq : qualify ⟨sectionName, .lineStart⟩ keyName = sectionName ++ narrow (L '.') :: keyName := by
      obtain ⟨b, bs, rfl, -, -⟩ := isIdent_cons hsect
      simp [qualify]
    simp only [Bool.false_eq_true, if_false, Option.elim_some]
    refine ⟨sectionName, keyName, ?_, by rw [hq]; exact hname, ?_⟩
    · rw [after_append _ (_ ++ _ ++ _), after_append _ (_ ++ _), hafter, hha, h1]
    · rw [emits_append _ (_ ++ _ ++ _), emits_append _ (_ ++ _), after_append _ (_ ++ _), hafter,
        hemits', hha, hhe, h2]
      simp

theorem atValue_append (hp : start.place k text = (.append, before, rest))
    (hs : Place.safe k before .append = true) : ∃ r, AtValue k r (Place.lead k before .append) := by
  obtain ⟨-, ha, hat, -⟩ := place_spec hp
  obtain ⟨hclear, hnames⟩ := names_before ha
  have hlike := (copied_like (.same start) before (unquoted_nothing start before)).1
  obtain ⟨sect, name, hafter, hmatch, hemits⟩ := after_lead_append hk hs
  refine ⟨⟨sect, .lineStart⟩, ⟨name, hafter, hmatch⟩, ?_⟩
  rw [hemits, names_append, ← hlike.pending.2]
  intro m hm
  rcases mem_append.mp hm with hm | hm
  · exact hnames m hm
  · exact clear_pending hclear hat m hm

theorem no_return_lead (place : Place) (hcr : L '\r' ∉ before) :
    L '\r' ∉ place.lead k before := by
  obtain ⟨sectionName, keyName, hfront, hsect, hkey, -, -⟩ := front_wellFormed hk
  have hcopy : L '\r' ∉ start.copied before := fun h => hcr (mem_copied h)
  have hkr : L '\r' ∉ widen keyName := not_mem_widen hkey (by decide)
  have hsr : L '\r' ∉ widen sectionName := not_mem_widen hsect (by decide)
  have hne : L '\r' ≠ L '\n' ∧ L '\r' ≠ L '=' ∧ L '\r' ≠ L '[' ∧ L '\r' ≠ L ']' ∧ L '\r' ≠ weof := by
    decide
  cases place with
  | replace => exact hcopy
  | insert =>
    have htrim : L '\r' ∉ trimNewlines (start.copied before) := fun h =>
      hcopy (( rdropWhile_prefix _ _).subset h)
    simp [Place.lead, hfront, htrim, hkr, hne]
  | append =>
    have hcutr : L '\r' ∉ (if (start.after before).cutOff weof then [weof] else []) := by
      split <;> simp [hne]
    have hheadr : L '\r' ∉ (if inSection k ((start.after before).next weof).sect then [] else
        L '[' :: widen sectionName ++ [L ']', L '\n']) := by
      split <;> simp [hne, hsr]
    simp only [Place.lead, hfront, Option.elim_some, mem_append, not_or]
    exact ⟨⟨⟨hcopy, hcutr, by simp [hne]⟩, hheadr⟩, hkr, by simp [hne]⟩

theorem update_lands {place : Place} (hcr : L '\r' ∉ text)
    (hp : start.place k text = (place, before, rest)) (hwe : weof ∉ text) (hw : start.whole before = true) :
    ∃ post, update k text = place.lead k before ++ (k.value ++ post) ∧ EndsValue post ∧
      L '\r' ∉ post := by
  obtain ⟨ht, -, -⟩ := place_spec hp
  obtain ⟨-, hrestr⟩ := no_return_copied ht hcr
  obtain ⟨sectionName, keyName, hfront, -, -, -, -⟩ := front_wellFormed hk
  have hne : L '\r' ≠ L '\n' ∧ L '\r' ≠ L '#' ∧ L '\r' ≠ L '[' := by decide
  cases place with
  | replace =>
    have hcase := update_replace hp hw hcr hwe
    generalize hblanks : oldBlanks false false [] rest = blanks at hcase
    have hb : blanks.all isHSpace = true := hblanks ▸ oldBlanks_all rfl rest
    have hbl := no_return_blanks hb
    rcases hcase with ⟨-, hout⟩ | ⟨d, rest', y, hold, hd, hy, hu, ho, hout⟩
    · exact ⟨blanks, by rw [hout]; simp [Place.lead], ⟨blanks, [], by simp, hb, .inl rfl⟩, hbl⟩
    · have hrest : L '\r' ∉ rest' := by
        intro h
        have hsub := (oldValue_suffix false false rest).subset
        rw [hold] at hsub
        exact hrestr (hsub (mem_cons_of_mem _ h))
      have hset : Settled y.2 y := settled_of_copying hy (by split <;> simp) hu
      obtain ⟨w, hgrow, hwr⟩ := finish_settled (k := k) hset hrest
      have hdr : L '\r' ≠ d := by rcases hd with rfl | rfl <;> decide
      refine ⟨blanks ++ d :: w, ?_, ⟨blanks, d :: w, rfl, hb, .inr ⟨d, w, rfl, hd⟩⟩, ?_⟩
      · rw [hout, outputOf, hgrow, ho]
        simp [Place.lead]
      · simp [hbl, hdr, hwr]
  | insert =>
    obtain ⟨-, rest', y, rfl, hy, hu, ho, hout⟩ := update_insert hp hw hfront
    have hrest : L '\r' ∉ rest' := fun h => hrestr (mem_cons_of_mem _ h)
    have hset : Settled y.2 y := settled_of_copying hy (by simp) hu
    obtain ⟨w, hgrow, hwr⟩ := finish_settled (k := k) hset hrest
    refine ⟨L '\n' :: L '\n' :: L '[' :: w, ?_, ⟨[], _, rfl, rfl, .inr ⟨_, _, rfl, .inl rfl⟩⟩, ?_⟩
    · rw [hout, outputOf, hgrow, ho]
      simp [Place.lead, hfront]
    · simp [hne, hwr]
  | append =>
    obtain ⟨-, -, hout⟩ := update_append hp hw hfront
    refine ⟨[], ?_, ⟨[], [], rfl, rfl, .inl rfl⟩, by simp⟩
    rw [hout]
    simp [Place.lead, hfront]

theorem update_reads_as {w : List UInt8} (hvr : L '\r' ∉ k.value)
    (hcr : L '\r' ∉ text) (hs : writeSafe k text = true) (hread : ∀ sect name post, EndsValue post → ∃ more,
      Reader.reports ⟨sect, .valueSpace name⟩ (k.value ++ post) =
        (cstr (qualify ⟨sect, .lineStart⟩ name), w) :: more) :
    ((parse (update k text)).find? fun p => k.matches p.1).map Prod.snd = some w := by
  obtain ⟨place, before, rest, hp, hwe, hw, hsafe⟩ := writeSafe_spec hs
  obtain ⟨r, ⟨name, hafter, hmatch⟩, hnames⟩ : ∃ r, AtValue k r (place.lead k before) := by
    cases place with
    | replace => exact ⟨_, atValue_replace hp⟩
    | insert => exact ⟨_, atValue_insert hk hp hsafe⟩
    | append => exact atValue_append hk hp hsafe
  have hlead := no_return_lead hk place fun h => hcr (by
    rw [(place_spec hp).1]
    exact mem_append_left _ h)
  obtain ⟨post, hout, hends, hpost⟩ := update_lands hk hcr hp hwe hw
  obtain ⟨more, hmore⟩ := hread r.sect name post hends
  rw [hout, parse_eq_reports (by simp [hlead, hvr, hpost]), reports_append, hafter, hmore]
  exact find_first hnames hmatch

end

theorem reads_readsBack {v : List WChar} (hv : readsBack v = true) (sect name : List UInt8)
    (post : List WChar) (hp : EndsValue post) :
    ∃ more, Reader.reports ⟨sect, .valueSpace name⟩ (v ++ post) =
      (cstr (qualify ⟨sect, .lineStart⟩ name), v.map narrow) :: more := by
  obtain ⟨blanks, w, rfl, hb, rfl | ⟨d, w', rfl, hd⟩⟩ := hp
  · rw [append_nil, reports_value_end sect name hv hb]
    exact ⟨[], rfl⟩
  · rw [← append_assoc, reports_value sect name hv hb hd]
    exact ⟨_, rfl⟩

theorem parse_append (hk : k.wellFormed) (hv : readsBack k.value = true) (hcr : L '\r' ∉ text)
    (hp : start.place k text = (.append, before, rest)) (hw : start.whole before = true)
    (hs : Place.safe k before .append = true) :
    ∃ n, k.matches n = true ∧ parse (update k text) =
      start.emits (start.copied before) ++
        (start.after (start.copied before)).pending.toList ++ [(n, k.value.map narrow)] := by
  obtain ⟨ht, -, -⟩ := place_spec hp
  obtain ⟨sectionName, keyName, hfront, -, -, -, -⟩ := front_wellFormed hk
  obtain ⟨-, -, hout⟩ := update_append hp hw hfront
  have hlead := no_return_lead hk .append fun h => hcr (by rw [ht]; exact mem_append_left _ h)
  obtain ⟨sect, name, hafter, hmatch, hemits⟩ := after_lead_append hk hs
  have htext : update k text = Place.lead k before .append ++ (k.value ++ []) := by
    rw [hout]
    simp [Place.lead, hfront]
  refine ⟨_, hmatch, ?_⟩
  rw [htext, parse_eq_reports (by simp [hlead, no_return_value hv]), reports_append, hafter, hemits,
    reports_value_end sect name hv rfl]

/-- The written setting is read back. -/
theorem update_reads_back (hk : k.wellFormed) (hv : readsBack k.value = true)
    (hcr : L '\r' ∉ text) (hs : writeSafe k text = true) :
    ((parse (update k text)).find? fun p => k.matches p.1).map Prod.snd =
      some (k.value.map narrow) :=
  update_reads_as hk (no_return_value hv) hcr hs (reads_readsBack hv)

theorem wellFormed_single {name : List UInt8} (sectionName keyName : List UInt8) (v : List WChar)
    (hname : name = sectionName ++ narrow (L '.') :: keyName) (hs : isIdent sectionName = true)
    (hk : isIdent keyName = true) : (⟨[name], v⟩ : ConfigKey).wellFormed := by
  refine ⟨by simp, fun n hn => ⟨sectionName, keyName, ?_, hs, hk⟩⟩
  rw [mem_singleton.mp hn, hname]

theorem wellFormed_memory (v : List WChar) : (⟨[bytes "wsl2.memory"], v⟩ : ConfigKey).wellFormed :=
  wellFormed_single (bytes "wsl2") (bytes "memory") v (by decide) (by decide) (by decide)

/-- The three places: a value that is replaced, a section that goes on, and no section. -/
theorem update_reads_back_memory :
    let k : ConfigKey := ⟨[bytes "wsl2.memory"], wide "8GB"⟩
    (∀ text ∈ [wide "[wsl2]\nmemory=4GB # half\n", wide "[wsl2]\nswap=0\n\n[boot]\n", wide "swap=0"],
      ((parse (update k text)).find? fun p => k.matches p.1).map Prod.snd = some (bytes "8GB")) := by
  intro k text htext
  have hsafe : L '\r' ∉ text ∧ writeSafe k text = true := by
    revert text
    decide
  exact update_reads_back (wellFormed_memory _) (by rfl) hsafe.1 hsafe.2

/-- The line that stops inside a key name hides the line after it from the writer. -/
theorem update_reads_back_cut_off :
    ¬ ∀ (k : ConfigKey) (text : List WChar), k.wellFormed → readsBack k.value = true →
      L '\r' ∉ text → ((parse (update k text)).find? fun p => k.matches p.1).map Prod.snd =
        some (k.value.map narrow) := by
  intro h
  have hbad := h ⟨[bytes "wsl2.memory"], wide "8GB"⟩ (wide "[wsl2]\nbabyshark\nmemory=1\n")
    (wellFormed_memory _) (by decide +kernel) (by decide)
  exact absurd hbad (by decide)

end ReadBack

end WslPlus.ConfigFile
