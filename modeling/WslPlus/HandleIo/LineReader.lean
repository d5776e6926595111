import WslPlus.Lib.CString
import WslPlus.Lib.Pieces

/-!
# Reading lines

`LineBasedReadHandle` cuts what it reads into lines, at line feeds or at pairs of a
carriage return and a line feed. What is left of a read is kept for the next one. The
carriage return at the end of a read is kept as data, so that a line feed at the start of
the next read does not end the line.
-/

namespace WslPlus.HandleIo

open List

def cr : UInt8 := 13
def lf : UInt8 := 10

theorem length_of_dropWhile {rest after : Bytes} {p : UInt8 → Bool} {b : UInt8}
    (h : rest.dropWhile p = b :: after) : after.length < rest.length := by
  have hle := (dropWhile_suffix p (l := rest)).length_le
  rw [h, length_cons] at hle
  omega

/-- The calls of `OnLine` are kept in `lines`. -/
structure LineBasedReadHandle where
  crlf : Bool
  pendingBuffer : Bytes := []
  lines : List Bytes := []

namespace LineBasedReadHandle

variable {crlf : Bool} {h : LineBasedReadHandle} {rest before after stream : Bytes} {reads : List Bytes}

def mark (crlf : Bool) : UInt8 := if crlf then cr else lf

def signal (h : LineBasedReadHandle) : LineBasedReadHandle :=
  if h.pendingBuffer = [] then h
  else { h with pendingBuffer := [], lines := h.lines ++ [h.pendingBuffer] }

def insert (h : LineBasedReadHandle) (bytes : Bytes) : LineBasedReadHandle :=
  { h with pendingBuffer := h.pendingBuffer ++ bytes }

/-- What is left behind a terminator whose first byte is followed by `after`. -/
def beyond (crlf : Bool) (after : Bytes) : Bytes := if crlf then after.tail else after

theorem length_beyond_le (crlf : Bool) (after : Bytes) : (beyond crlf after).length ≤ after.length := by
  unfold beyond
  split
  · rw [length_tail]
    omega
  · exact Nat.le_refl _

/-- The loop over a buffer, of which `rest` is the part from `begin` on. -/
def scan (h : LineBasedReadHandle) (rest : Bytes) : LineBasedReadHandle :=
  match _hend : rest.dropWhile (· != mark h.crlf) with
  | [] => h.insert rest
  | _ :: after =>
    let before := rest.takeWhile (· != mark h.crlf)
    -- an incomplete CRLF sequence
    if h.crlf && after.head? != some lf then scan (h.insert (before ++ [cr])) after
    else scan (h.insert before).signal (beyond h.crlf after)
termination_by rest.length
decreasing_by
  · exact length_of_dropWhile _hend
  · exact Nat.lt_of_le_of_lt (length_beyond_le h.crlf after) (length_of_dropWhile _hend)

def onRead (h : LineBasedReadHandle) (buffer : Bytes) : LineBasedReadHandle :=
  if buffer = [] ∧ h.pendingBuffer ≠ [] then h.signal else h.scan buffer

/-- The calls of `OnLine` for a list of reads and the empty read at the end of the file. -/
def onLine (crlf : Bool) (reads : List Bytes) : List Bytes :=
  ((reads ++ [[]]).foldl onRead { crlf }).lines

@[simp]
theorem insert_crlf (bytes : Bytes) : (h.insert bytes).crlf = h.crlf := rfl

@[simp]
theorem insert_pendingBuffer (bytes : Bytes) :
    (h.insert bytes).pendingBuffer = h.pendingBuffer ++ bytes := rfl

@[simp]
theorem signal_crlf : h.signal.crlf = h.crlf := by
  unfold signal
  split <;> rfl

@[simp]
theorem signal_pendingBuffer : h.signal.pendingBuffer = [] := by
  unfold signal
  split
  · assumption
  · rfl

theorem signal_lines : h.signal.lines = h.lines ++ [h.pendingBuffer].filter (· ≠ []) := by
  unfold signal
  split
  · rename_i hnil
    simp [hnil]
  · rename_i hne
    simp [hne]

theorem scan_not_mem (hmark : mark h.crlf ∉ rest) : h.scan rest = h.insert rest := by
  have hend : rest.dropWhile (· != mark h.crlf) = [] := by
    rw [dropWhile_eq_nil_iff]
    intro b hb
    have : b ≠ mark h.crlf := by
      rintro rfl
      exact hmark hb
    simpa using this
  rw [scan]
  split
  · rfl
  · rename_i hcons
    rw [hend] at hcons
    cases hcons

theorem scan_mem (hmark : mark h.crlf ∉ before) :
    h.scan (before ++ mark h.crlf :: after) =
      if h.crlf && after.head? != some lf then (h.insert (before ++ [cr])).scan after
      else (h.insert before).signal.scan (beyond h.crlf after) := by
  have hall : ∀ b ∈ before, (b != mark h.crlf) = true := by
    intro b hb
    have : b ≠ mark h.crlf := by
      rintro rfl
      exact hmark hb
    simpa using this
  have hend : (before ++ mark h.crlf :: after).dropWhile (· != mark h.crlf) = mark h.crlf :: after := by
    rw [dropWhile_append_of_pos hall]
    simp
  have hbefore : (before ++ mark h.crlf :: after).takeWhile (· != mark h.crlf) = before := by
    rw [takeWhile_append_of_pos hall]
    simp
  rw [scan]
  split
  · rename_i hnil
    rw [hend] at hnil
    cases hnil
  · rename_i hcons
    rw [hend] at hcons
    cases hcons
    rw [hbefore]

theorem scan_crlf (rest : Bytes) : (h.scan rest).crlf = h.crlf := by
  fun_induction scan h rest with
  | case1 => rfl
  | case2 h _ _ _ _ _ _ ih => exact ih
  | case3 h _ _ _ _ _ _ ih =>
    rw [ih]
    simp

def terminator (crlf : Bool) : Bytes := if crlf then [cr, lf] else [lf]

theorem terminator_ne_nil (crlf : Bool) : terminator crlf ≠ [] := by cases crlf <;> simp [terminator]

def linesOf (crlf : Bool) (stream : Bytes) : List Bytes :=
  (Pieces.ofStream (terminator crlf) stream).all.filter (· ≠ [])

theorem crlf_suffix_concat {l : Bytes} {b : UInt8} : [cr, lf] <:+ l ++ [b] ↔ l.getLast? = some cr ∧ b = lf := by
  rw [suffix_concat_iff, getLast?_eq_some_iff]
  constructor
  · rintro (hnil | ⟨t, ht, front, hfront⟩)
    · cases hnil
    · have hinj : [cr] = t ∧ [lf] = [b] := append_inj' ht rfl
      obtain ⟨rfl, hb⟩ := hinj
      exact ⟨⟨front, hfront.symm⟩, (singleton_inj.mp hb).symm⟩
  · rintro ⟨⟨front, rfl⟩, rfl⟩
    exact .inr ⟨[cr], rfl, front, rfl⟩

theorem lf_suffix_concat {l : Bytes} {b : UInt8} : [lf] <:+ l ++ [b] ↔ b = lf := by
  rw [suffix_concat_iff]
  constructor
  · rintro (hnil | ⟨t, ht, -⟩)
    · cases hnil
    · have hinj : [] = t ∧ [lf] = [b] := append_inj' ht rfl
      exact (singleton_inj.mp hinj.2).symm
  · rintro rfl
    exact .inr ⟨[], rfl, nil_suffix⟩

def Torn (crlf : Bool) (prev : Option UInt8) (rest : Bytes) : Prop :=
  crlf = true ∧ prev = some cr ∧ rest.head? = some lf

theorem foldl_read_of_not_mem {p : Pieces UInt8} {part : Bytes} (hmark : mark crlf ∉ part)
    (htorn : ¬ Torn crlf p.last.getLast? part) :
    part.foldl (Pieces.read (terminator crlf)) p = { p with last := p.last ++ part } := by
  apply Pieces.foldl_read_of_not_suffix
  intro l hne hl hsuffix
  obtain ⟨front, b, rfl⟩ := (eq_nil_or_concat l).resolve_left hne
  rw [concat_eq_append] at hl hsuffix
  rw [← append_assoc] at hsuffix
  cases crlf with
  | false =>
    obtain rfl := lf_suffix_concat.mp hsuffix
    exact hmark (hl.subset (by simp [mark]))
  | true =>
    obtain ⟨hlast, rfl⟩ := crlf_suffix_concat.mp hsuffix
    by_cases hfront : front = []
    · subst hfront
      apply htorn
      obtain ⟨t, rfl⟩ := hl
      exact ⟨rfl, by simpa using hlast, rfl⟩
    · rw [getLast?_append_of_ne_nil _ hfront] at hlast
      exact hmark (hl.subset (mem_append_left _ (mem_of_getLast? hlast)))

/-- The handle has called `OnLine` with the nonempty pieces and keeps the last one. -/
structure Follows (h : LineBasedReadHandle) (p : Pieces UInt8) : Prop where
  pending : h.pendingBuffer = p.last
  lines : h.lines = p.ended.filter (· ≠ [])

namespace Follows

variable {p : Pieces UInt8}

theorem insert (hp : Follows h p) (bytes : Bytes) :
    Follows (h.insert bytes) { p with last := p.last ++ bytes } where
  pending := by rw [insert_pendingBuffer, hp.pending]
  lines := hp.lines

theorem signal (hp : Follows h p) : Follows h.signal ⟨p.ended ++ [p.last], []⟩ where
  pending := signal_pendingBuffer
  lines := by rw [signal_lines, hp.pending, hp.lines, filter_append]

theorem scan (rest : Bytes) (hp : Follows h p) (htorn : ¬ Torn h.crlf p.last.getLast? rest) :
    Follows (h.scan rest) (rest.foldl (Pieces.read (terminator h.crlf)) p) := by
  induction hlen : rest.length using Nat.strongRecOn generalizing h p rest with
  | ind n ih =>
    subst hlen
    by_cases hmark : mark h.crlf ∈ rest
    · obtain ⟨before, after, rfl, hbefore⟩ := eq_append_cons_of_mem hmark
      have hlt : after.length < (before ++ mark h.crlf :: after).length := by
        simp only [length_append, length_cons]
        omega
      have hpart : ¬ Torn h.crlf p.last.getLast? before := by
        rintro ⟨hcrlf, hlast, hhead⟩
        exact htorn ⟨hcrlf, hlast, by simp [head?_append, hhead]⟩
      rw [scan_mem hbefore, foldl_append, foldl_cons, foldl_read_of_not_mem hbefore hpart]
      cases hcrlf : h.crlf with
      | false =>
        -- the byte is the terminator
        have hread : Pieces.read (terminator false) { p with last := p.last ++ before } (mark false) =
            ⟨p.ended ++ [p.last ++ before], []⟩ := Pieces.read_of_suffix rfl
        rw [hread]
        have hnext := (hp.insert before).signal
        have hih := ih after.length hlt after hnext (by simp [Torn, hcrlf]) rfl
        simpa [hcrlf, beyond] using hih
      | true =>
        have hread : Pieces.read (terminator true) { p with last := p.last ++ before } (mark true) =
            { p with last := p.last ++ (before ++ [cr]) } := by
          rw [Pieces.read_of_not_suffix]
          · simp [mark]
          · rw [terminator, if_pos rfl, crlf_suffix_concat]
            rintro ⟨-, hlf⟩
            exact absurd hlf (by decide)
        rw [hread]
        by_cases hhead : after.head? = some lf
        · obtain ⟨after, rfl⟩ := head?_eq_some_iff.mp hhead
          have hread' : Pieces.read (terminator true) { p with last := p.last ++ (before ++ [cr]) } lf =
              ⟨p.ended ++ [p.last ++ before], []⟩ := Pieces.read_of_suffix (by simp [terminator])
          rw [foldl_cons, hread']
          have hnext := (hp.insert before).signal
          have hih := ih after.length (Nat.lt_of_succ_lt hlt) after hnext (by simp [Torn]) rfl
          simpa [hcrlf, beyond] using hih
        · have hnext := hp.insert (before ++ [cr])
          have hih := ih after.length hlt after hnext (by simp [Torn, hhead]) rfl
          simpa [hcrlf, hhead] using hih
    · rw [scan_not_mem hmark, foldl_read_of_not_mem hmark htorn]
      exact hp.insert rest

end Follows

/-- The reads cut a terminator in two, when the byte before them is `prev`. -/
def CutsTerminator (crlf : Bool) : Option UInt8 → List Bytes → Prop
  | _, [] => False
  | prev, r :: reads => Torn crlf prev r ∨ CutsTerminator crlf r.getLast? reads

theorem last_foldl_read {p : Pieces UInt8} {r : Bytes} (hr : r ≠ []) :
    (r.foldl (Pieces.read (terminator true)) p).last.getLast? = some cr ↔ r.getLast? = some cr := by
  obtain ⟨front, b, rfl⟩ := (eq_nil_or_concat r).resolve_left hr
  rw [concat_eq_append, foldl_concat, getLast?_concat]
  generalize front.foldl (Pieces.read (terminator true)) p = p'
  by_cases hsuffix : terminator true <:+ p'.last ++ [b]
  · obtain ⟨piece, hpiece⟩ := hsuffix
    rw [Pieces.read_of_suffix hpiece.symm]
    have hb : b = lf := (crlf_suffix_concat.mp ⟨piece, hpiece⟩).2
    subst hb
    simp [cr, lf]
  · rw [Pieces.read_of_not_suffix hsuffix]
    simp

def Overlooked (h : LineBasedReadHandle) : Prop :=
  [cr, lf] <:+: h.pendingBuffer ∨ ∃ line ∈ h.lines, [cr, lf] <:+: line

namespace Overlooked

theorem insert (ho : Overlooked h) (bytes : Bytes) : Overlooked (h.insert bytes) := by
  cases ho with
  | inl hpend => exact .inl (hpend.trans (infix_append' [] _ _))
  | inr hlines => exact .inr hlines

theorem signal_lines (ho : Overlooked h) : ∃ line ∈ h.signal.lines, [cr, lf] <:+: line := by
  rw [LineBasedReadHandle.signal_lines]
  cases ho with
  | inl hpend =>
    have hne : h.pendingBuffer ≠ [] := by
      intro hnil
      rw [hnil, infix_nil] at hpend
      cases hpend
    exact ⟨h.pendingBuffer, by simp [hne], hpend⟩
  | inr hlines =>
    obtain ⟨line, hmem, hfound⟩ := hlines
    exact ⟨line, mem_append_left _ hmem, hfound⟩

theorem signal (ho : Overlooked h) : Overlooked h.signal := .inr ho.signal_lines

theorem scan (rest : Bytes) (ho : Overlooked h) : Overlooked (h.scan rest) := by
  fun_induction LineBasedReadHandle.scan h rest with
  | case1 => exact ho.insert _
  | case2 _ _ _ _ _ _ _ ih => exact ih (ho.insert _)
  | case3 _ _ _ _ _ _ _ ih => exact ih (ho.insert _).signal

theorem onRead (buffer : Bytes) (ho : Overlooked h) : Overlooked (h.onRead buffer) := by
  unfold LineBasedReadHandle.onRead
  split
  · exact ho.signal
  · exact ho.scan buffer

theorem foldl_onRead (reads : List Bytes) (ho : Overlooked h) :
    Overlooked (reads.foldl LineBasedReadHandle.onRead h) := by
  induction reads generalizing h with
  | nil => exact ho
  | cons r reads ih => exact ih (ho.onRead r)

theorem insert_of_torn {bytes : Bytes} (htorn : Torn h.crlf h.pendingBuffer.getLast? bytes) :
    Overlooked (h.insert bytes) := by
  obtain ⟨-, hlast, hhead⟩ := htorn
  obtain ⟨front, hfront⟩ := getLast?_eq_some_iff.mp hlast
  obtain ⟨more, rfl⟩ := head?_eq_some_iff.mp hhead
  exact .inl ⟨front, more, by simp [hfront]⟩

theorem of_torn (htorn : Torn h.crlf h.pendingBuffer.getLast? rest) : Overlooked (h.scan rest) := by
  by_cases hmark : mark h.crlf ∈ rest
  · obtain ⟨before, after, rfl, hbefore⟩ := eq_append_cons_of_mem hmark
    have hpart : Torn h.crlf h.pendingBuffer.getLast? before := by
      obtain ⟨hcrlf, hlast, hhead⟩ := htorn
      cases before with
      | nil => simp [mark, hcrlf, cr, lf] at hhead
      | cons b before => exact ⟨hcrlf, hlast, by simpa using hhead⟩
    have ho := insert_of_torn hpart
    rw [scan_mem hbefore]
    split
    · have ho' := (ho.insert [cr]).scan after
      simpa [LineBasedReadHandle.insert] using ho'
    · exact ho.signal.scan _
  · rw [scan_not_mem hmark]
    exact insert_of_torn htorn

end Overlooked

theorem onRead_of_ne_nil {r : Bytes} (hr : r ≠ []) : h.onRead r = h.scan r := by simp [onRead, hr]

theorem onRead_nil : h.onRead [] = h.signal := by
  unfold onRead
  split
  · rfl
  · rename_i hnot
    have hnil : h.pendingBuffer = [] := by simpa using hnot
    have hscan : h.scan [] = h.insert [] := scan_not_mem ( not_mem_nil)
    rw [hscan, signal, if_pos hnil, insert, append_nil]

theorem foldl_onRead {p : Pieces UInt8} {prev : Option UInt8} (hreads : ∀ r ∈ reads, r ≠ [])
    (hp : Follows h p) (hprev : h.crlf = true → (p.last.getLast? = some cr ↔ prev = some cr)) :
    (¬ CutsTerminator h.crlf prev reads →
      Follows (reads.foldl onRead h) (reads.flatten.foldl (Pieces.read (terminator h.crlf)) p)) ∧
    (CutsTerminator h.crlf prev reads → Overlooked (reads.foldl onRead h)) := by
  induction reads generalizing h p prev with
  | nil => exact ⟨fun _ => hp, fun hcuts => hcuts.elim⟩
  | cons r reads ih =>
    have hr : r ≠ [] := hreads r mem_cons_self
    have hreads' : ∀ r ∈ reads, r ≠ [] := fun r hmem => hreads r (mem_cons_of_mem _ hmem)
    have htorn : Torn h.crlf p.last.getLast? r ↔ Torn h.crlf prev r := by
      unfold Torn
      constructor
      · rintro ⟨hcrlf, hlast, hhead⟩
        exact ⟨hcrlf, (hprev hcrlf).mp hlast, hhead⟩
      · rintro ⟨hcrlf, hlast, hhead⟩
        exact ⟨hcrlf, (hprev hcrlf).mpr hlast, hhead⟩
    rw [foldl_cons, flatten_cons, foldl_append, onRead_of_ne_nil hr]
    by_cases hnow : Torn h.crlf prev r
    · constructor
      · intro hcuts
        exact absurd (.inl hnow) hcuts
      · intro _
        apply Overlooked.foldl_onRead
        apply Overlooked.of_torn
        rw [hp.pending]
        exact htorn.mpr hnow
    · have hscan := hp.scan r (htorn.not.mpr hnow)
      have hcrlf : (h.scan r).crlf = h.crlf := scan_crlf r
      have hends : (h.scan r).crlf = true →
          ((r.foldl (Pieces.read (terminator h.crlf)) p).last.getLast? = some cr ↔
            r.getLast? = some cr) := by
        intro htrue
        rw [hcrlf] at htrue
        rw [htrue]
        exact last_foldl_read hr
      have hrest := ih hreads' hscan hends
      rw [hcrlf] at hrest
      constructor
      · intro hcuts
        exact hrest.1 fun hlater => hcuts (.inr hlater)
      · intro hcuts
        exact hrest.2 (hcuts.resolve_left hnow)

theorem follows_init (crlf : Bool) : Follows { crlf } {} := ⟨rfl, rfl⟩

theorem onLine_eq_signal (reads : List Bytes) :
    onLine crlf reads = (reads.foldl onRead { crlf }).signal.lines := by
  rw [onLine, foldl_concat, onRead_nil]

theorem onLine_of_not_cuts (hreads : ∀ r ∈ reads, r ≠ []) (hcuts : ¬ CutsTerminator crlf none reads) :
    onLine crlf reads = linesOf crlf reads.flatten := by
  have hfollows := (foldl_onRead hreads (follows_init crlf) (by simp)).1 hcuts
  rw [onLine_eq_signal, hfollows.signal.lines]
  rfl

theorem onLine_singleton (stream : Bytes) : onLine crlf [stream] = linesOf crlf stream := by
  by_cases hstream : stream = []
  · subst hstream
    rw [onLine_eq_signal, foldl_cons, onRead_nil]
    simp [signal, linesOf, Pieces.ofStream, Pieces.all]
  · have hreads : ∀ r ∈ [stream], r ≠ [] := by simpa using hstream
    have hcuts : ¬ CutsTerminator crlf none [stream] := by simp [CutsTerminator, Torn]
    simpa using onLine_of_not_cuts hreads hcuts

theorem crlf_of_cutsTerminator {prev : Option UInt8} (hcuts : CutsTerminator crlf prev reads) :
    crlf = true := by
  induction reads generalizing prev with
  | nil => exact hcuts.elim
  | cons r reads ih =>
    cases hcuts with
    | inl hnow => exact hnow.1
    | inr hlater => exact ih hlater

theorem onLine_ne_of_cuts (hreads : ∀ r ∈ reads, r ≠ []) (hcuts : CutsTerminator crlf none reads) :
    onLine crlf reads ≠ linesOf crlf reads.flatten := by
  intro heq
  have hcrlf := crlf_of_cutsTerminator hcuts
  have hoverlooked := (foldl_onRead hreads (follows_init crlf) (by simp)).2 hcuts
  obtain ⟨line, hmem, hfound⟩ := hoverlooked.signal_lines
  rw [← onLine_eq_signal, heq, linesOf, mem_filter] at hmem
  have hfree := (Pieces.of_ofStream (terminator_ne_nil crlf) reads.flatten).free line hmem.1
  rw [terminator, if_pos hcrlf] at hfree
  exact hfree hfound

/-- The calls of `OnLine` do not depend on the reads exactly if none of them begins inside
a terminator. -/
theorem onLine_iff (crlf : Bool) (reads : List Bytes) (hreads : ∀ r ∈ reads, r ≠ []) :
    (onLine crlf reads = onLine crlf [reads.flatten] ∧ onLine crlf reads = linesOf crlf reads.flatten) ↔
      ¬ CutsTerminator crlf none reads := by
  rw [onLine_singleton]
  constructor
  · rintro ⟨heq, -⟩ hcuts
    exact onLine_ne_of_cuts hreads hcuts heq
  · intro hcuts
    exact ⟨onLine_of_not_cuts hreads hcuts, onLine_of_not_cuts hreads hcuts⟩

theorem onLine_iff_two_reads : ¬ CutsTerminator true none [[97, 13, 10], [98]] ∧
    onLine true [[97, 13, 10], [98]] = onLine true [[97, 13, 10, 98]] := by
  have hcuts : ¬ CutsTerminator true none [[97, 13, 10], [98]] := by simp [CutsTerminator, Torn, cr, lf]
  exact ⟨hcuts, ((onLine_iff true [[97, 13, 10], [98]] (by simp)).mpr hcuts).1⟩

/-- The reads `a CR` and `LF b` give one line, and all four bytes together give two. -/
theorem terminator_overlooked :
    onLine true [[97, 13], [10, 98]] = [[97, 13, 10, 98]] ∧
      onLine true [[97, 13, 10, 98]] = [[97], [98]] := by
  constructor
  · have hfirst : onRead { crlf := true } [97, 13] = { crlf := true, pendingBuffer := [97, 13] } := by
      rw [onRead_of_ne_nil (by simp)]
      have hscan := @scan_mem { crlf := true } [97] [] (by decide)
      rw [if_pos (by decide)] at hscan
      exact hscan.trans (scan_not_mem (by decide))
    have hsecond : onRead { crlf := true, pendingBuffer := [97, 13] } [10, 98] =
        { crlf := true, pendingBuffer := [97, 13, 10, 98] } := by
      rw [onRead_of_ne_nil (by simp)]
      exact scan_not_mem (by decide)
    rw [onLine_eq_signal, foldl_cons, hfirst, foldl_cons, hsecond]
    rfl
  · rw [onLine_singleton]
    decide

end LineBasedReadHandle

end WslPlus.HandleIo
