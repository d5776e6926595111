import WslPlus.ConfigFile.WriteBack

/-!
# What a write leaves alone

The settings of the other names are read as before when `othersSafe` holds of
the text. Beyond the place of the setting it asks that no line stops inside a
header or a key name, that no quoted `#` occurs in another value, and that the
value that is replaced has no malformed escape before a continuation.
-/

namespace WslPlus.ConfigFile

open List Reader

variable {k : ConfigKey} {r r' : Reader} {c : WChar} {keep : List UInt8 → Bool}
  {text before rest : List WChar} {x : Status × State}

def others (k : ConfigKey) (name : List UInt8) : Bool := !k.matches name

def valuesOf (name : List UInt8) (pairs : List Pair) : List (List UInt8) :=
  (pairs.filter fun p => p.1 == name).map Prod.snd

theorem valuesOf_kept {name : List UInt8} (h : keep name = true) (pairs : List Pair) :
    valuesOf name (kept keep pairs) = valuesOf name pairs := by
  unfold valuesOf kept
  rw [filter_filter]
  congr 1
  refine filter_congr fun p _ => ?_
  by_cases hp : p.1 = name
  · simp [hp, h]
  · simp [hp]

section OldValue

/-- The old value goes on where the reader has already ended its line: after a
malformed escape only the writer takes a continuation. -/
def Reader.overruns (r : Reader) (inQuote escaped : Bool) : List WChar → Bool
  | [] => false
  | c :: text =>
    if escaped then
      r.phase == .invalid && c == L '\n' || (r.next c).overruns inQuote false text
    else if c = L '\n' ∨ (c = L '#' ∧ !inQuote) then false
    else if c = L '"' then (r.next c).overruns (!inQuote) false text
    else (r.next c).overruns inQuote (c == L '\\') text

def OldAt (k : ConfigKey) (r : Reader) (inQuote escaped : Bool) : Prop :=
  match r.phase with
  | .invalid => True
  | .valueSpace name => inQuote = false ∧ escaped = false ∧ k.matches (cstr (r.qualify name)) = true
  | .value name _ _ q => inQuote = q ∧ escaped = false ∧ k.matches (cstr (r.qualify name)) = true
  | .escape name _ q => inQuote = q ∧ escaped = true ∧ k.matches (cstr (r.qualify name)) = true
  | _ => False

theorem OldAt.pending {inQuote escaped : Bool} (h : OldAt k r inQuote escaped) :
    kept (others k) r.pending.toList = [] := by
  obtain ⟨sect, phase⟩ := r
  cases phase with
  | valueSpace name =>
    obtain ⟨-, -, hm⟩ := h
    simp [kept, Reader.pending, others, hm]
  | value name kp b q =>
    obtain ⟨-, -, hm⟩ := h
    cases q with
    | true => rfl
    | false => simp [kept, Reader.pending, others, hm]
  | _ => rfl

theorem OldAt.emit {inQuote escaped : Bool} (h : OldAt k r inQuote escaped) :
    kept (others k) (r.emit c) = [] := by
  unfold Reader.emit
  split
  · exact h.pending
  · rfl

theorem reports_invalid (sect : List UInt8) (text : List WChar) :
    Reader.reports ⟨sect, .invalid⟩ text = Reader.reports ⟨sect, .comment⟩ text := by
  induction text with
  | nil => rfl
  | cons c text ih =>
    rw [reports_cons, reports_cons, emit_of_pending rfl, emit_of_pending rfl]
    by_cases he : isEol c = true <;> simp [Reader.next, he, ih]

theorem OldAt.next {inQuote : Bool} (h : OldAt k r inQuote false) (hw : c ≠ weof)
    (hgo : ¬ (c = L '\n' ∨ (c = L '#' ∧ !inQuote))) :
    OldAt k (r.next c) (if c = L '"' then !inQuote else inQuote) (c == L '\\') ∧ (r.next c).sect = r.sect := by
  have hnl : c ≠ L '\n' := fun hx => hgo (.inl hx)
  have hhash : ¬ (c = L '#' ∧ !inQuote) := fun hx => hgo (.inr hx)
  have heol : isEol c = false := by simp [isEol, hnl, hw]
  have hvalue : ∀ (name kp b : List UInt8) (p : Phase),
      k.matches (cstr (r.qualify name)) = true →
      OldAt k (nextValue ⟨r.sect, p⟩ name kp b inQuote c) (if c = L '"' then !inQuote else inQuote)
        (c == L '\\') ∧ (nextValue ⟨r.sect, p⟩ name kp b inQuote c).sect = r.sect := by
    intro name kp b p hm
    unfold nextValue
    rw [if_neg (by simp [heol])]
    by_cases hq : c = L '"'
    · have hne : (L '"' == L '\\') = false := by decide
      simp only [hq, if_true, hne]
      exact ⟨⟨rfl, rfl, hm⟩, trivial⟩
    · rw [if_neg hq, if_neg hq]
      by_cases hs : c = L '\\'
      · simp only [hs, if_true, beq_self_eq_true]
        exact ⟨⟨rfl, rfl, hm⟩, trivial⟩
      · have hs' : (c == L '\\') = false := by simpa using hs
        rw [if_neg hs, if_neg hhash, hs']
        split <;> exact ⟨⟨rfl, rfl, hm⟩, rfl⟩
  obtain ⟨sect, phase⟩ := r
  cases phase with
  | invalid => simp [Reader.next, heol, OldAt]
  | valueSpace name =>
    obtain ⟨rfl, -, hm⟩ := h
    by_cases hsp : isHSpace c = true
    · have hne : c ≠ L '"' ∧ c ≠ L '\\' := by
        rcases (isHSpace_iff c).mp hsp with rfl | rfl <;> decide
      have hn : Reader.next ⟨sect, .valueSpace name⟩ c = ⟨sect, .valueSpace name⟩ := by
        simp [Reader.next, hsp]
      rw [hn, if_neg hne.1]
      exact ⟨⟨rfl, by simpa using hne.2, hm⟩, rfl⟩
    · have hn : Reader.next ⟨sect, .valueSpace name⟩ c =
          nextValue ⟨sect, .valueSpace name⟩ name [] [] false c := by simp [Reader.next, hsp]
      rw [hn]
      exact hvalue name [] [] _ hm
  | value name kp b q =>
    obtain ⟨rfl, -, hm⟩ := h
    exact hvalue name kp b _ hm
  | escape name value q => exact absurd h.2.1 (by simp)
  | _ => exact absurd h (by simp [OldAt])

theorem OldAt.escaped {inQuote : Bool} (h : OldAt k r inQuote true) (hw : c ≠ weof)
    (hover : ¬ (r.phase = .invalid ∧ c = L '\n')) :
    OldAt k (r.next c) inQuote false ∧ (r.next c).sect = r.sect := by
  obtain ⟨sect, phase⟩ := r
  cases phase with
  | invalid =>
    have hnl : c ≠ L '\n' := fun hx => hover ⟨rfl, hx⟩
    have heol : isEol c = false := by simp [isEol, hnl, hw]
    simp [Reader.next, heol, OldAt]
  | valueSpace name => exact absurd h.2.1 (by simp)
  | value name kp b q => exact absurd h.2.1 (by simp)
  | escape name value q =>
    obtain ⟨rfl, -, hm⟩ := h
    simp only [Reader.next]
    cases escapeText c with
    | none => exact ⟨trivial, rfl⟩
    | some bs => exact ⟨⟨rfl, rfl, hm⟩, rfl⟩
  | _ => exact absurd h (by simp [OldAt])

theorem OldAt.ended {inQuote : Bool} (h : OldAt k r inQuote false)
    (hc : c = L '\n' ∨ (c = L '#' ∧ !inQuote)) (w : List WChar) :
    (r.next c).reports w =
      Reader.reports ⟨r.sect, if c = L '#' then .comment else .lineStart⟩ w := by
  have hne : L '\n' ≠ L '#' := by decide
  obtain ⟨sect, phase⟩ := r
  cases phase with
  | invalid =>
    rcases hc with rfl | ⟨rfl, -⟩
    · rw [if_neg hne]
      rfl
    · rw [if_pos rfl, ← reports_invalid]
      rfl
  | valueSpace name =>
    rcases hc with rfl | ⟨rfl, -⟩
    · rw [if_neg hne]
      rfl
    · rw [if_pos rfl]
      rfl
  | value name kp b q =>
    obtain ⟨rfl, -, -⟩ := h
    rcases hc with rfl | ⟨rfl, hq⟩
    · rw [if_neg hne]
      rfl
    · simp only [Bool.not_eq_true'] at hq
      subst hq
      rw [if_pos rfl]
      rfl
  | escape name value q => exact absurd h.2.1 (by simp)
  | _ => exact absurd h (by simp [OldAt])

theorem reports_oldValue {inQuote escaped : Bool} (h : OldAt k r inQuote escaped)
    (hover : r.overruns inQuote escaped text = false) (hw : weof ∉ text) :
    kept (others k) (r.reports text) = match oldValue inQuote escaped text with
      | [] => []
      | d :: rest => kept (others k)
          (Reader.reports ⟨r.sect, if d = L '#' then .comment else .lineStart⟩ rest) := by
  induction text generalizing r inQuote escaped with
  | nil => exact h.pending
  | cons c text ih =>
    have hw' : c ≠ weof := fun hx => hw (hx ▸ mem_cons_self)
    have hws : weof ∉ text := fun hx => hw (mem_cons_of_mem _ hx)
    rw [reports_cons, kept_append, h.emit, nil_append, oldValue]
    rw [overruns] at hover
    cases escaped with
    | true =>
      simp only [if_true, Bool.or_eq_false_iff] at hover ⊢
      have hno : ¬ (r.phase = .invalid ∧ c = L '\n') := by
        rintro ⟨h1, h2⟩
        simp [h1, h2] at hover
      obtain ⟨hn, hsect⟩ := h.escaped hw' hno
      rw [ih hn hover.2 hws, hsect]
    | false =>
      simp only [Bool.false_eq_true, if_false] at hover ⊢
      by_cases hend : c = L '\n' ∨ (c = L '#' ∧ !inQuote)
      · rw [if_pos hend, h.ended hend]
      · rw [if_neg hend] at hover ⊢
        obtain ⟨hn, hsect⟩ := h.next hw' hend
        by_cases hq : c = L '"'
        · subst hq
          have hne : (L '"' == L '\\') = false := by decide
          rw [if_pos rfl] at hover hn ⊢
          rw [hne] at hn
          rw [ih hn hover hws, hsect]
        · rw [if_neg hq] at hover hn ⊢
          rw [ih hn hover hws, hsect]

end OldValue

section Rest

theorem reports_eofMark (r : Reader) : r.reports (if r.cutOff weof then [weof] else []) = r.pending.toList := by
  split
  · have heof : isEol weof = true := by decide
    have hp : (r.next weof).pending = none := by
      obtain ⟨sect, phase⟩ := r
      cases phase <;> rfl
    simp [emit, heof, hp]
  · rfl

def Reader.copiedToEnd (r : Reader) (text : List WChar) : List WChar :=
  r.copied text ++ if (r.after text).cutOff weof then [weof] else []

theorem outputOf_updated (hx : Copying x r) (hu : x.2.outputKeyValueUpdated = true) (hw : r.whole rest = true) :
    outputOf k x rest = x.2.configFileOutput ++ r.copiedToEnd rest := by
  obtain ⟨hc, hu', ho⟩ := scan_copying (k := k) hx hw (.inl hu)
  have hq : QuietEof (Args.write k) (scan (Args.write k) x rest).2 (r.after rest) := by
    intro name hp
    refine ⟨?_, by simp [Args.write]⟩
    rw [unwritten_write, hu', hu]
    rfl
  obtain ⟨y, hy, hends⟩ := finish_follows rfl hq hc.tracks
  have hfin : finish (Args.write k) (scan (Args.write k) x rest) = checkEof (Args.write k) y := hy
  rw [outputOf, hfin, checkEof_updated hends.eof (hends.updated.trans (hu'.trans hu)), hends.output, ho,
    copiedToEnd, ← append_assoc]
  rfl

theorem reports_updated (hr : Like keep r r') (hw : r.unquoted keep rest = true) :
    kept keep (r'.reports (r.copiedToEnd rest)) = kept keep (r.reports rest) := by
  obtain ⟨h1, h2, -⟩ := copied_like hr rest hw
  rw [copiedToEnd, reports_append, h1.cutOff weof, reports_eofMark, kept_append, ← h2, ← h1.pending.1, reports,
    kept_append]

theorem no_return_tail (h : L '\r' ∉ rest) : L '\r' ∉ r.copiedToEnd rest := by
  have hne : L '\r' ≠ weof := by decide
  rw [copiedToEnd, mem_append]
  rintro (hm | hm)
  · exact h (mem_copied hm)
  · split at hm
    · exact hne (mem_singleton.mp hm)
    · exact absurd hm (by simp)

end Rest

section Frame

def Place.keepsRest (k : ConfigKey) (r : Reader) (rest : List WChar) : Place → Bool
  | .replace => !r.overruns false false rest &&
      match oldValue false false rest with
      | [] => true
      | d :: rest =>
        let r' : Reader := ⟨r.sect, if d = L '#' then .comment else .lineStart⟩
        r'.whole rest && r'.unquoted (others k) rest
  | _ => r.whole rest && r.unquoted (others k) rest

def othersSafe (k : ConfigKey) (text : List WChar) : Bool :=
  let (place, before, rest) := start.place k text
  writeSafe k text && start.unquoted (others k) before &&
    place.keepsRest k (start.after before) rest

theorem othersSafe_spec (h : othersSafe k text = true) :
    ∃ place before rest, start.place k text = (place, before, rest) ∧ weof ∉ text ∧
      start.whole before = true ∧ place.safe k before = true ∧
      start.unquoted (others k) before = true ∧
      place.keepsRest k (start.after before) rest = true := by
  refine ⟨_, _, _, rfl, ?_⟩
  simpa [othersSafe, writeSafe, and_assoc] using h

theorem kept_drop {n v : List UInt8} (h : k.matches n = true) (pairs : List Pair) :
    kept (others k) ((n, v) :: pairs) = kept (others k) pairs := by
  simp [kept, others, h]

theorem update_replace_others (hv : readsBack k.value = true) (hcr : L '\r' ∉ text)
    (hp : start.place k text = (.replace, before, rest)) (hwe : weof ∉ text)
    (hw : start.whole before = true) (hu : start.unquoted (others k) before = true)
    (hk : Place.keepsRest k (start.after before) rest .replace = true) :
    kept (others k) (parse (update k text)) = kept (others k) (parse text) := by
  obtain ⟨ht, -, hat⟩ := place_spec hp
  obtain ⟨hlike, hemits, -⟩ := copied_like (.same start) before hu
  obtain ⟨name, hphase, hmatch⟩ := atKey_phase hat
  have hread : start.after (start.copied before) = ⟨(start.after before).sect, .valueSpace name⟩ := by
    rw [hlike.eq_of_valueSpace hphase, ← hphase]
  obtain ⟨hcopy, hrestr⟩ := no_return_copied ht hcr
  have hval := no_return_value hv
  simp only [Place.keepsRest, Bool.and_eq_true, Bool.not_eq_true'] at hk
  obtain ⟨hover, hrest⟩ := hk
  have hold : OldAt k (start.after before) false false := by
    unfold OldAt
    rw [hphase]
    exact ⟨rfl, rfl, hmatch⟩
  have hwe' : weof ∉ rest := fun h => hwe (by rw [ht]; exact mem_append_right _ h)
  have htext := reports_oldValue hold hover hwe'
  rw [parse_eq_reports hcr]
  conv_rhs => rw [ht, reports_append, kept_append, htext, hemits]
  have hcase := update_replace hp hw hcr hwe
  generalize hblanks : oldBlanks false false [] rest = blanks at hcase
  have hb : blanks.all isHSpace = true := hblanks ▸ oldBlanks_all rfl rest
  have hbl := no_return_blanks hb
  rcases hcase with ⟨hnil, hout⟩ | ⟨d, rest', y, hcons, hd, hy, huy, ho, hout⟩
  · rw [hout, hnil, parse_eq_reports (by simp [hcopy, hval, hbl]), append_assoc, reports_append,
      hread, reports_value_end _ _ hv hb, kept_append, kept_drop hmatch]
    rfl
  · rw [hcons] at hrest ⊢
    rw [Bool.and_eq_true] at hrest
    obtain ⟨hwr, hur⟩ := hrest
    have hdr : L '\r' ≠ d := by rcases hd with rfl | rfl <;> decide
    have hrr : L '\r' ∉ rest' := by
      intro h
      have hsub := (oldValue_suffix false false rest).subset
      rw [hcons] at hsub
      exact hrestr (hsub (mem_cons_of_mem _ h))
    have hcopy' := no_return_tail (r := ⟨(start.after before).sect,
      if d = L '#' then .comment else .lineStart⟩) hrr
    rw [outputOf_updated hy huy hwr, ho] at hout
    have htext : update k text = start.copied before ++ (k.value ++ blanks ++ d ::
        Reader.copiedToEnd ⟨(start.after before).sect,
          if d = L '#' then .comment else .lineStart⟩ rest') := by
      rw [hout]
      simp
    rw [htext, parse_eq_reports (by simp [hcopy, hval, hbl, hdr, hcopy']), reports_append, hread,
      reports_value _ _ hv hb hd, kept_append, kept_drop hmatch, reports_updated (.same _) hur]

theorem update_insert_others (hkw : k.wellFormed) (hv : readsBack k.value = true)
    (hcr : L '\r' ∉ text) (hp : start.place k text = (.insert, before, rest))
    (hw : start.whole before = true) (hs : Place.safe k before .insert = true)
    (hu : start.unquoted (others k) before = true)
    (hk : Place.keepsRest k (start.after before) rest .insert = true) :
    kept (others k) (parse (update k text)) = kept (others k) (parse text) := by
  obtain ⟨ht, -, -⟩ := place_spec hp
  obtain ⟨hlike, hemits, -⟩ := copied_like (.same start) before hu
  obtain ⟨sectionName, keyName, hfront, -, hkey, hfk, -⟩ := front_wellFormed hkw
  obtain ⟨hphase, rest', y, rfl, hy, huy, ho, hout⟩ := update_insert hp hw hfront
  simp only [Place.safe, Bool.and_eq_true, Bool.not_eq_true', hfk] at hs
  obtain ⟨hesc, hmatch⟩ := hs
  have hmatch : k.matches (cstr (qualify ⟨(start.after before).sect, .lineStart⟩ keyName)) = true :=
    hmatch
  have hread : start.after (start.copied before) = ⟨(start.after before).sect, .lineStart⟩ := by
    rw [hlike.eq_of_phase (by simp [valueName, hphase]), ← hphase]
  obtain ⟨hafter, hemits'⟩ := after_trimNewlines hread hesc
  obtain ⟨hcopy, hrestr⟩ := no_return_copied ht hcr
  have htrim : L '\r' ∉ trimNewlines (start.copied before) := fun h =>
    hcopy (( rdropWhile_prefix _ _).subset h)
  have hkr : L '\r' ∉ widen keyName := not_mem_widen hkey (by decide)
  have hopen : (start.after before).next (L '[') = ⟨(start.after before).sect, .sectionFirst⟩ := by
    simp only [Reader.next, hphase]
    rfl
  simp only [Place.keepsRest, whole, unquoted, Bool.and_eq_true, hopen] at hk
  obtain ⟨⟨-, hwr⟩, -, hur⟩ := hk
  have hrr : L '\r' ∉ rest' := fun h => hrestr (mem_cons_of_mem _ h)
  have hcopy' := no_return_tail (r := ⟨(start.after before).sect, .sectionFirst⟩) hrr
  have hne : L '\r' ≠ L '\n' ∧ L '\r' ≠ L '=' ∧ L '\r' ≠ L '[' := by decide
  rw [outputOf_updated hy huy hwr, ho] at hout
  have htext : update k text = (trimNewlines (start.copied before) ++ [L '\n']) ++
      (widen keyName ++ L '=' :: k.value ++ L '\n' :: (L '\n' :: L '[' ::
        Reader.copiedToEnd ⟨(start.after before).sect, .sectionFirst⟩ rest')) := by
    rw [hout]
    simp
  have hblank : ∀ w, Reader.reports ⟨(start.after before).sect, .lineStart⟩ (L '\n' :: L '[' :: w) =
      Reader.reports ⟨(start.after before).sect, .sectionFirst⟩ w := by
    intro w
    rw [reports_cons, reports_cons]
    rfl
  have hold : (start.after before).emit (L '[') = [] := emit_of_pending (by simp [pending, hphase])
  rw [htext, parse_eq_reports (by simp [htrim, no_return_value hv, hkr, hne, hcopy']),
    reports_append, hafter, hemits', reports_setting _ hkey hv, kept_append, kept_drop hmatch, hblank,
    reports_updated (.same _) hur, parse_eq_reports hcr]
  conv_rhs => rw [ht, reports_append, reports_cons, hold, hopen, nil_append, kept_append, hemits]

theorem update_append_others (hkw : k.wellFormed) (hv : readsBack k.value = true)
    (hcr : L '\r' ∉ text) (hp : start.place k text = (.append, before, rest))
    (hw : start.whole before = true) (hs : Place.safe k before .append = true)
    (hu : start.unquoted (others k) before = true) :
    kept (others k) (parse (update k text)) = kept (others k) (parse text) := by
  obtain ⟨ht, -, -⟩ := place_spec hp
  obtain ⟨hlike, hemits, -⟩ := copied_like (.same start) before hu
  obtain ⟨n, hn, hparse⟩ := parse_append hkw hv hcr hp hw hs
  obtain ⟨rfl, -⟩ := (place_spec hp).2.2.2
  rw [append_nil] at ht
  subst ht
  rw [hparse, parse_eq_reports hcr, reports, kept_append, kept_append, kept_append, kept_drop hn,
    hemits, hlike.pending.1]
  simp [kept]

/-- Writing one setting leaves the values of every other name alone. -/
theorem update_keeps_others (hk : k.wellFormed) (hv : readsBack k.value = true)
    (hcr : L '\r' ∉ text) (hs : othersSafe k text = true) :
    ∀ name, k.matches name = false →
      valuesOf name (parse (update k text)) = valuesOf name (parse text) := by
  intro name hname
  obtain ⟨place, before, rest, hp, hwe, hw, hsafe, hu, hrest⟩ := othersSafe_spec hs
  have hkept : kept (others k) (parse (update k text)) = kept (others k) (parse text) := by
    cases place with
    | replace => exact update_replace_others hv hcr hp hwe hw hu hrest
    | insert => exact update_insert_others hk hv hcr hp hw hsafe hu hrest
    | append => exact update_append_others hk hv hcr hp hw hsafe hu
  have hkeep : others k name = true := by simp [others, hname]
  rw [← valuesOf_kept hkeep (parse (update k text)), hkept, valuesOf_kept hkeep]

theorem update_keeps_others_memory :
    let k : ConfigKey := ⟨[bytes "wsl2.memory"], wide "8GB"⟩
    ∀ text ∈ [wide "[wsl2]\nmemory=4GB # half\nswap=0\n", wide "[wsl2]\nswap=0\n\n[boot]\n",
        wide "swap=0"],
      ∀ name, k.matches name = false →
        valuesOf name (parse (update k text)) = valuesOf name (parse text) := by
  intro k text htext
  have hsafe : L '\r' ∉ text ∧ othersSafe k text = true := by
    revert text
    decide
  exact update_keeps_others (wellFormed_memory _) (by rfl) hsafe.1 hsafe.2

/-- The newlines cut off before the next header end a continuation, and the
setting is taken for the rest of the value before it. -/
theorem update_keeps_others_continuation :
    ¬ ∀ (k : ConfigKey) (text : List WChar), k.wellFormed → readsBack k.value = true →
      L '\r' ∉ text → ∀ name, k.matches name = false →
        valuesOf name (parse (update k text)) = valuesOf name (parse text) := by
  intro h
  have hbad := h ⟨[bytes "wsl2.memory"], wide "8GB"⟩ (wide "[wsl2]\nswap=0\\\n\n[boot]\n")
    (wellFormed_memory _) (by rfl) (by decide) (bytes "wsl2.swap") (by rfl)
  exact absurd hbad (by decide)

end Frame

end WslPlus.ConfigFile
