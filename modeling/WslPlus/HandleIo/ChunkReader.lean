import WslPlus.HandleIo.LineReader
import Mathlib.Algebra.GroupWithZero.Nat

/-!
# Reading a chunked body

`HTTPChunkBasedReadHandle` cuts a body into its chunks: a line with the size in
hexadecimal digits, the data, and a line end that is skipped. One buffer holds the part of
a size line or of the data that has arrived. The loop over a read does what a machine does
that takes one byte at a time, so that only the bytes matter and not the reads.
-/

namespace WslPlus.HandleIo

open List

def hexValue (b : UInt8) : Option Nat :=
  if 48 ≤ b ∧ b ≤ 57 then some (b.toNat - 48)
  else if 65 ≤ b ∧ b ≤ 70 then some (b.toNat - 55)
  else if 97 ≤ b ∧ b ≤ 102 then some (b.toNat - 87)
  else none

def isHex (b : UInt8) : Bool := (hexValue b).isSome

def hexNumber (digits : Bytes) : Nat := digits.foldl (fun n b => 16 * n + (hexValue b).getD 0) 0

def isSpace (b : UInt8) : Bool := b == 32 || (9 ≤ b && b ≤ 13)

/-- `std::stoul` with base 16, for an `unsigned long` of 32 bits: the value and the number
of characters of the number, with the blanks, the sign and the `0x` in front of it. -/
def stoul (text : Bytes) : Option (Nat × Nat) :=
  let blanks := text.takeWhile isSpace
  let signed := text.dropWhile isSpace
  let sign := signed.take (if signed.head? = some 43 ∨ signed.head? = some 45 then 1 else 0)
  let number := signed.drop sign.length
  let marked := number[0]? = some 48 ∧ (number[1]? = some 120 ∨ number[1]? = some 88) ∧
    (number[2]?.any isHex) = true
  let skipped := if marked then 2 else 0
  let digits := (number.drop skipped).takeWhile isHex
  let value := hexNumber digits
  if digits = [] ∨ 2 ^ 32 ≤ value then none
  else some (if sign = [45] then (2 ^ 32 - value) % 2 ^ 32 else value,
    blanks.length + sign.length + skipped + digits.length)

theorem ne_of_isHex {b c : UInt8} (hb : isHex b = true) (hc : isHex c = false) : b ≠ c := by
  rintro rfl
  rw [hb] at hc
  cases hc

theorem isSpace_of_isHex {b : UInt8} (hb : isHex b = true) : isSpace b = false := by
  by_contra hspace
  simp only [isSpace, Bool.not_eq_false, Bool.or_eq_true, beq_iff_eq, Bool.and_eq_true,
    decide_eq_true_eq, UInt8.le_iff_toNat_le] at hspace
  obtain rfl | ⟨hlow, hhigh⟩ := hspace
  · exact absurd hb (by decide)
  · simp only [UInt8.reduceToNat] at hlow hhigh
    have hnone : hexValue b = none := by
      simp only [hexValue, UInt8.le_iff_toNat_le, UInt8.reduceToNat]
      rw [if_neg (by omega), if_neg (by omega), if_neg (by omega)]
    simp [isHex, hnone] at hb

theorem stoul_hex {digits : Bytes} (hne : digits ≠ []) (hhex : ∀ b ∈ digits, isHex b = true)
    (hvalue : hexNumber digits < 2 ^ 32) : stoul digits = some (hexNumber digits, digits.length) := by
  obtain ⟨b, rest, rfl⟩ := exists_cons_of_ne_nil hne
  have hb : isHex b = true := hhex b mem_cons_self
  have hspace := isSpace_of_isHex hb
  have hplus : b ≠ 43 := ne_of_isHex hb (by decide)
  have hminus : b ≠ 45 := ne_of_isHex hb (by decide)
  have hall : (b :: rest).takeWhile isHex = b :: rest := by
    rw [takeWhile_eq_self_iff]
    exact hhex
  have hmark : ¬ (rest[0]? = some 120 ∨ rest[0]? = some 88) := by
    cases rest with
    | nil => simp
    | cons c rest =>
      have hc : isHex c = true := hhex c (by simp)
      have hx : c ≠ 120 := ne_of_isHex hc (by decide)
      have hX : c ≠ 88 := ne_of_isHex hc (by decide)
      simp [hx, hX]
  have hblanks : (b :: rest).takeWhile isSpace = [] := by simp [hspace]
  have hsigned : (b :: rest).dropWhile isSpace = b :: rest := by simp [hspace]
  simp only [stoul, hblanks, hsigned, head?_cons, Option.some.injEq, hplus, hminus, or_self,
    if_false, take_zero, length_nil, drop_zero, getElem?_cons_succ, hmark,
    false_and, and_false, hall, nil_eq, reduceCtorEq, false_or, Nat.zero_add]
  rw [if_neg (by omega)]

/-- What is thrown; each is `E_INVALIDARG`, two with a text and the header. -/
inductive ChunkError where
  | endOfFile
  | malformedChunkHeader (header : Bytes)
  | failedToParseChunkSize (header : Bytes)

/-- The calls of `OnChunk` are kept in `chunks`. -/
structure HTTPChunkBasedReadHandle where
  pendingBuffer : Bytes := []
  pendingChunkSize : Nat := 0
  expectHeader : Bool := true
  chunks : List Bytes := []

namespace HTTPChunkBasedReadHandle

abbrev Result := Except (ChunkError × HTTPChunkBasedReadHandle) HTTPChunkBasedReadHandle

variable {h : HTTPChunkBasedReadHandle} {b : UInt8} {rest bytes : Bytes}

def parseHeader (h : HTTPChunkBasedReadHandle) : Result :=
  let line := h.pendingBuffer
  if line.length < 2 ∨ line.getLast? ≠ some cr then
    .error (.malformedChunkHeader (CString.cString line), h)
  else
    let h := { h with pendingBuffer := line.dropLast }
    match stoul (CString.cString line.dropLast) with
    | none => .error (.failedToParseChunkSize (CString.cString line.dropLast), h)
    | some (size, parsed) =>
      let h := { h with pendingChunkSize := size }
      if parsed ≠ line.dropLast.length then
        .error (.failedToParseChunkSize (CString.cString line.dropLast), h)
      else .ok { h with expectHeader := false, pendingBuffer := [] }

def consume (h : HTTPChunkBasedReadHandle) (bytes : Bytes) : HTTPChunkBasedReadHandle :=
  let h := { h with
    pendingBuffer := h.pendingBuffer ++ bytes
    pendingChunkSize := h.pendingChunkSize - bytes.length }
  if h.pendingChunkSize = 0 then
    { h with pendingBuffer := [], chunks := h.chunks ++ [h.pendingBuffer] }
  else h

def insertHeader (h : HTTPChunkBasedReadHandle) (bytes : Bytes) : HTTPChunkBasedReadHandle :=
  { h with expectHeader := true, pendingBuffer := h.pendingBuffer ++ bytes }

def loop (h : HTTPChunkBasedReadHandle) (buffer : Bytes) : Result :=
  match buffer with
  | [] => .ok h
  | b :: rest =>
    if h.pendingChunkSize = 0 then
      -- line ends between chunks
      if h.pendingBuffer = [] ∧ (b = cr ∨ b = lf) then loop h rest
      else
        match _hend : (b :: rest).dropWhile (· != lf) with
        | [] => .ok (h.insertHeader (b :: rest))
        | _ :: after =>
          match parseHeader (h.insertHeader ((b :: rest).takeWhile (· != lf))) with
          | .error e => .error e
          | .ok h => loop h after
    else
      let consumedBytes := min h.pendingChunkSize (b :: rest).length
      loop (h.consume ((b :: rest).take consumedBytes)) ((b :: rest).drop consumedBytes)
termination_by buffer.length
decreasing_by
  · simp
  · exact length_of_dropWhile _hend
  · simp only [List.length_drop, length_cons]
    omega

def onRead (h : HTTPChunkBasedReadHandle) (input : Bytes) : Result :=
  if input = [] ∧ (h.pendingChunkSize ≠ 0 ∨ h.expectHeader = true) then .error (.endOfFile, h)
  else loop h input

def run (reads : List Bytes) : Result := (reads ++ [[]]).foldlM onRead {}

def readByte (h : HTTPChunkBasedReadHandle) (b : UInt8) : Result :=
  if h.pendingChunkSize = 0 then
    if h.pendingBuffer = [] ∧ (b = cr ∨ b = lf) then .ok h
    else if b = lf then parseHeader (h.insertHeader [])
    else .ok (h.insertHeader [b])
  else .ok (h.consume [b])

theorem insertHeader_insertHeader (bytes more : Bytes) :
    (h.insertHeader bytes).insertHeader more = h.insertHeader (bytes ++ more) := by
  simp [insertHeader]

theorem consume_of_lt (hlt : bytes.length < h.pendingChunkSize) :
    h.consume bytes = { h with
      pendingBuffer := h.pendingBuffer ++ bytes
      pendingChunkSize := h.pendingChunkSize - bytes.length } := if_neg (by simp only; omega)

theorem consume_of_eq (heq : bytes.length = h.pendingChunkSize) :
    h.consume bytes = { h with
      pendingBuffer := []
      pendingChunkSize := 0
      chunks := h.chunks ++ [h.pendingBuffer ++ bytes] } := by
  unfold consume
  simp [heq]

theorem foldlM_header (hne : bytes ≠ []) (hlf : lf ∉ bytes) (hsize : h.pendingChunkSize = 0)
    (hstart : h.pendingBuffer ≠ [] ∨ bytes.head? ≠ some cr) :
    bytes.foldlM readByte h = .ok (h.insertHeader bytes) := by
  induction bytes generalizing h with
  | nil => exact absurd rfl hne
  | cons b bytes ih =>
    have hb : b ≠ lf := by
      rintro rfl
      exact hlf mem_cons_self
    have hstart' : ¬ (h.pendingBuffer = [] ∧ (b = cr ∨ b = lf)) := by
      rintro ⟨hnil, rfl | rfl⟩
      · exact hstart.elim (fun hp => hp hnil) (fun hc => hc rfl)
      · exact hb rfl
    have hread : readByte h b = .ok (h.insertHeader [b]) := by
      rw [readByte, if_pos hsize, if_neg hstart', if_neg hb]
    rw [foldlM_cons, hread]
    by_cases hbytes : bytes = []
    · subst hbytes
      rfl
    · have hrest := ih (h := h.insertHeader [b]) hbytes (fun hmem => hlf (mem_cons_of_mem _ hmem))
        hsize (.inl (by simp [insertHeader]))
      rw [insertHeader_insertHeader] at hrest
      exact hrest

theorem foldlM_data (hne : bytes ≠ []) (hle : bytes.length ≤ h.pendingChunkSize) :
    bytes.foldlM readByte h = .ok (h.consume bytes) := by
  induction bytes generalizing h with
  | nil => exact absurd rfl hne
  | cons b bytes ih =>
    rw [length_cons] at hle
    have hread : readByte h b = .ok (h.consume [b]) := if_neg (by omega)
    rw [foldlM_cons, hread]
    by_cases hbytes : bytes = []
    · subst hbytes
      rfl
    · have hpos := length_pos_iff.mpr hbytes
      have hone : h.consume [b] = { h with
          pendingBuffer := h.pendingBuffer ++ [b]
          pendingChunkSize := h.pendingChunkSize - 1 } := consume_of_lt (by simp; omega)
      have hrest := ih (h := h.consume [b]) hbytes (by rw [hone]; simp only; omega)
      refine hrest.trans (congrArg Except.ok ?_)
      rw [hone]
      simp only [consume, append_assoc, singleton_append, length_cons, Nat.sub_sub,
        Nat.add_comm]

theorem foldlM_line (hlf : lf ∉ bytes) (hsize : h.pendingChunkSize = 0)
    (hstart : h.pendingBuffer ≠ [] ∨ bytes ≠ [] ∧ bytes.head? ≠ some cr) :
    (bytes ++ [lf]).foldlM readByte h = parseHeader (h.insertHeader bytes) := by
  rw [foldlM_append]
  by_cases hbytes : bytes = []
  · subst hbytes
    have hpend : h.pendingBuffer ≠ [] := hstart.resolve_right (by simp)
    have hread : readByte h lf = parseHeader (h.insertHeader []) := by simp [readByte, hsize, hpend]
    simp only [foldlM_nil, foldlM_cons, hread, pure_bind, bind_pure]
  · have hread : readByte (h.insertHeader bytes) lf = parseHeader (h.insertHeader bytes) := by
      simp [readByte, insertHeader, hsize, hbytes]
    rw [foldlM_header hbytes hlf hsize (hstart.imp_right fun hs => hs.2)]
    simp only [foldlM_nil, foldlM_cons, bind_pure]
    exact hread

theorem start_of_not_skip (hskip : ¬ (h.pendingBuffer = [] ∧ (b = cr ∨ b = lf))) :
    h.pendingBuffer ≠ [] ∨
      (b :: rest).takeWhile (· != lf) ≠ [] ∧ ((b :: rest).takeWhile (· != lf)).head? ≠ some cr := by
  by_cases hpend : h.pendingBuffer = []
  · have hb : ¬ (b = cr ∨ b = lf) := fun hb => hskip ⟨hpend, hb⟩
    obtain ⟨hcr, hlf⟩ := not_or.mp hb
    exact .inr (by simp [hcr, hlf])
  · exact .inl hpend

theorem not_mem_of_dropWhile_eq_nil (hend : bytes.dropWhile (· != lf) = []) : lf ∉ bytes := by
  intro hmem
  have hall := dropWhile_eq_nil_iff.mp hend lf hmem
  simp at hall

theorem eq_of_dropWhile_eq_cons {c : UInt8} {after : Bytes} (hend : bytes.dropWhile (· != lf) = c :: after) :
    bytes = bytes.takeWhile (· != lf) ++ [lf] ++ after ∧ lf ∉ bytes.takeWhile (· != lf) := by
  constructor
  · have hc : c = lf := by
      have hnot := head?_dropWhile_not (· != lf) bytes
      rw [hend] at hnot
      simpa using hnot
    have happ := takeWhile_append_dropWhile (p := (· != lf)) (l := bytes)
    rw [hend, hc] at happ
    rw [append_assoc, singleton_append, happ]
  · intro hmem
    have hall := mem_takeWhile_imp hmem
    simp at hall

theorem loop_eq (h : HTTPChunkBasedReadHandle) (buffer : Bytes) : loop h buffer = buffer.foldlM readByte h := by
  fun_induction loop h buffer with
  | case1 => rfl
  | case2 h b rest hsize hskip ih =>
    rw [ih, foldlM_cons, readByte, if_pos hsize, if_pos hskip]
    rfl
  | case3 h b rest hsize hskip hend =>
    have hlf := not_mem_of_dropWhile_eq_nil hend
    rw [foldlM_header (cons_ne_nil b rest) hlf hsize]
    by_contra hstart
    simp only [ne_eq, head?_cons, Option.some.injEq, not_or, not_not] at hstart
    exact hskip ⟨hstart.1, .inl hstart.2⟩
  | case4 h b rest hsize hskip c after hend e hparse =>
    obtain ⟨heq, hlf⟩ := eq_of_dropWhile_eq_cons hend
    rw [heq, foldlM_append, foldlM_line hlf hsize (start_of_not_skip hskip), hparse]
    rfl
  | case5 h b rest hsize hskip c after hend h' hparse ih =>
    obtain ⟨heq, hlf⟩ := eq_of_dropWhile_eq_cons hend
    rw [heq, foldlM_append, foldlM_line hlf hsize (start_of_not_skip hskip), hparse, ih]
    rfl
  | case6 h b rest hsize consumedBytes ih =>
    have hpos : 0 < consumedBytes := by
      simp only [consumedBytes, length_cons]
      omega
    have hne : (b :: rest).take consumedBytes ≠ [] := by
      rw [ne_eq, take_eq_nil_iff]
      simp only [reduceCtorEq, or_false]
      omega
    have hle : ((b :: rest).take consumedBytes).length ≤ h.pendingChunkSize := by
      rw [length_take]
      omega
    have hdata := foldlM_data hne hle
    conv_rhs => rw [← take_append_drop consumedBytes (b :: rest), foldlM_append, hdata]
    exact ih

theorem foldlM_onRead {reads : List Bytes} (hreads : ∀ r ∈ reads, r ≠ []) (h : HTTPChunkBasedReadHandle) :
    reads.foldlM onRead h = reads.flatten.foldlM readByte h := by
  induction reads generalizing h with
  | nil => rfl
  | cons r reads ih =>
    have hr : r ≠ [] := hreads r mem_cons_self
    have hrest : reads.foldlM onRead = reads.flatten.foldlM readByte :=
      funext (ih fun r hmem => hreads r (mem_cons_of_mem _ hmem))
    rw [foldlM_cons, flatten_cons, foldlM_append, hrest, ← loop_eq, onRead]
    rw [if_neg (by simp [hr])]

theorem run_eq {reads : List Bytes} (hreads : ∀ r ∈ reads, r ≠ []) :
    run reads = reads.flatten.foldlM readByte {} >>= fun h => onRead h [] := by
  rw [run, foldlM_append, foldlM_onRead hreads]
  simp only [foldlM_cons, foldlM_nil, bind_pure]

variable {h' : HTTPChunkBasedReadHandle}

theorem parseHeader_chunks (hparse : parseHeader h = .ok h') : h'.chunks = h.chunks := by
  simp only [parseHeader] at hparse
  split at hparse
  · cases hparse
  · split at hparse
    · cases hparse
    · split at hparse
      · cases hparse
      · cases hparse
        rfl

theorem readByte_chunks (hread : readByte h b = .ok h') : h.chunks <+: h'.chunks := by
  simp only [readByte] at hread
  split at hread
  · split at hread
    · cases hread
      exact prefix_refl _
    · split at hread
      · rw [parseHeader_chunks hread]
        exact prefix_refl _
      · cases hread
        exact prefix_refl _
  · cases hread
    unfold consume
    simp only
    split
    · exact prefix_append _ _
    · exact prefix_refl _

theorem ok_of_bind {x : Result} {f : HTTPChunkBasedReadHandle → Result}
    (hbind : x >>= f = .ok h') : ∃ h, x = .ok h ∧ f h = .ok h' := by
  cases x with
  | error e => cases hbind
  | ok h => exact ⟨h, rfl, hbind⟩

theorem foldlM_chunks {α : Type} {f : HTTPChunkBasedReadHandle → α → Result}
    (hf : ∀ {h a h'}, f h a = .ok h' → h.chunks <+: h'.chunks) {l : List α}
    (hfold : l.foldlM f h = .ok h') : h.chunks <+: h'.chunks := by
  induction l generalizing h with
  | nil =>
    cases hfold
    exact prefix_refl _
  | cons a l ih =>
    rw [foldlM_cons] at hfold
    obtain ⟨h₁, hfirst, hrest⟩ := ok_of_bind hfold
    exact (hf hfirst).trans (ih hrest)

theorem onRead_chunks (hread : onRead h bytes = .ok h') : h.chunks <+: h'.chunks := by
  unfold onRead at hread
  split at hread
  · cases hread
  · rw [loop_eq] at hread
    exact foldlM_chunks readByte_chunks hread

end HTTPChunkBasedReadHandle

/-- A chunk with its size line, in which the size may have leading zeros. -/
structure Chunk where
  size : Bytes
  data : Bytes
  size_ne_nil : size ≠ []
  isHex_of_mem : ∀ b ∈ size, isHex b = true
  hexNumber_size : hexNumber size = data.length
  length_lt : data.length < 2 ^ 32

def Chunk.sizeLine (c : Chunk) : Bytes := c.size ++ [cr, lf]

def Chunk.encode (c : Chunk) : Bytes := c.sizeLine ++ c.data ++ [cr, lf]

/-- Chunks with data, and a chunk without data at the end that may be missing. -/
structure Body where
  chunks : List Chunk
  zero : Option Chunk
  data_ne_nil : ∀ c ∈ chunks, c.data ≠ []
  data_eq_nil : ∀ c ∈ zero, c.data = []

def Body.all (body : Body) : List Chunk := body.chunks ++ body.zero.toList

def Body.encode (body : Body) : Bytes := body.all.flatMap Chunk.encode

/-- What arrives ends inside the size line or inside the data of the chunk that follows
the complete ones. -/
def Body.Truncated (body : Body) (complete : List Chunk) (arrived : Bytes) : Prop :=
  ∃ c later part, body.all = complete ++ c :: later ∧
    arrived = complete.flatMap Chunk.encode ++ part ∧
    (part ≠ [] ∧ part <+: c.size ++ [cr] ∨
      ∃ data, data <+: c.data ∧ data ≠ c.data ∧ part = c.sizeLine ++ data)

theorem Chunk.lf_not_mem (c : Chunk) : lf ∉ c.size ++ [cr] := by
  intro hmem
  rw [mem_append, mem_singleton] at hmem
  obtain hmem | heq := hmem
  · exact ne_of_isHex (c.isHex_of_mem lf hmem) (by decide) rfl
  · exact absurd heq (by decide)

theorem Chunk.head_ne {c : Chunk} {part : Bytes} (hpart : part <+: c.size ++ [cr]) : part.head? ≠ some cr := by
  intro hhead
  obtain ⟨b, rest, hsize⟩ := exists_cons_of_ne_nil c.size_ne_nil
  obtain ⟨part, rfl⟩ := head?_eq_some_iff.mp hhead
  rw [hsize, cons_append, cons_prefix_cons] at hpart
  have hb : isHex b = true := c.isHex_of_mem b (by simp [hsize])
  exact ne_of_isHex hb (by decide) hpart.1.symm

theorem Chunk.cString_size (c : Chunk) : CString.cString c.size = c.size := by
  apply CString.cString_of_not_mem
  intro hmem
  exact ne_of_isHex (c.isHex_of_mem 0 hmem) (by decide) rfl

namespace HTTPChunkBasedReadHandle

variable {h : HTTPChunkBasedReadHandle}

theorem ok_bind (f : HTTPChunkBasedReadHandle → Result) : (.ok h : Result) >>= f = f h := rfl

def Between (h : HTTPChunkBasedReadHandle) : Prop := h.pendingBuffer = [] ∧ h.pendingChunkSize = 0

theorem foldlM_sizeLine (c : Chunk) (hbetween : h.Between) :
    c.sizeLine.foldlM readByte h =
      .ok { h with pendingChunkSize := c.data.length, expectHeader := false } := by
  obtain ⟨hpend, hsize⟩ := hbetween
  have hhead : (c.size ++ [cr]).head? ≠ some cr := Chunk.head_ne (prefix_refl _)
  have hline := foldlM_line c.lf_not_mem hsize (.inr ⟨by simp, hhead⟩)
  have hlong : ¬ ((c.size ++ [cr]).length < 2 ∨ (c.size ++ [cr]).getLast? ≠ some cr) := by
    have hpos := length_pos_iff.mpr c.size_ne_nil
    simp only [length_append, length_singleton, getLast?_concat, ne_eq, not_true,
      or_false]
    omega
  have hstoul : stoul c.size = some (c.data.length, c.size.length) := by
    have hnumber := c.hexNumber_size
    rw [stoul_hex c.size_ne_nil c.isHex_of_mem (by rw [hnumber]; exact c.length_lt), hnumber]
  rw [append_assoc] at hline
  rw [Chunk.sizeLine]
  refine hline.trans ?_
  simp only [parseHeader, insertHeader, hpend, nil_append, if_neg hlong, dropLast_concat,
    Chunk.cString_size, hstoul, ne_eq, not_true, if_false]

theorem readByte_skip (hbetween : h.Between) : [cr, lf].foldlM readByte h = .ok h := by
  obtain ⟨hpend, hsize⟩ := hbetween
  have hcr : readByte h cr = .ok h := by simp [readByte, hsize, hpend]
  have hlf : readByte h lf = .ok h := by simp [readByte, hsize, hpend]
  rw [foldlM_cons, hcr, ok_bind, foldlM_cons, hlf, ok_bind]
  rfl

theorem foldlM_encode (c : Chunk) (hbetween : h.Between) :
    c.encode.foldlM readByte h =
      .ok { h with expectHeader := false, chunks := h.chunks ++ [c.data].filter (· ≠ []) } := by
  obtain ⟨hpend, hsize⟩ := hbetween
  rw [Chunk.encode, foldlM_append, foldlM_append, foldlM_sizeLine c ⟨hpend, hsize⟩]
  by_cases hdata : c.data = []
  · have hbetween : Between { h with pendingChunkSize := 0, expectHeader := false } := ⟨hpend, rfl⟩
    rw [hdata, length_nil, ok_bind, foldlM_nil, pure_bind, readByte_skip hbetween]
    simp [hsize]
  · have hread := foldlM_data hdata
      (h := { h with pendingChunkSize := c.data.length, expectHeader := false }) (Nat.le_refl _)
    rw [consume_of_eq rfl] at hread
    rw [ok_bind, hread, ok_bind, readByte_skip ⟨rfl, rfl⟩]
    simp [hdata, hpend, hsize]

theorem foldlM_all (cs : List Chunk) (hbetween : h.Between) :
    (cs.flatMap Chunk.encode).foldlM readByte h = .ok { h with
      expectHeader := h.expectHeader && cs.isEmpty
      chunks := h.chunks ++ (cs.map Chunk.data).filter (· ≠ []) } := by
  induction cs generalizing h with
  | nil => simp [pure, Except.pure]
  | cons c cs ih =>
    have hnext : Between { h with
        expectHeader := false, chunks := h.chunks ++ [c.data].filter (· ≠ []) } := hbetween
    have hfilter : ((c :: cs).map Chunk.data).filter (· ≠ []) =
        [c.data].filter (· ≠ []) ++ (cs.map Chunk.data).filter (· ≠ []) := by
      rw [← filter_append]
      rfl
    rw [flatMap_cons, foldlM_append, foldlM_encode c hbetween, ok_bind, ih hnext, hfilter]
    simp

theorem between_init : Between {} := ⟨rfl, rfl⟩

theorem filter_data (body : Body) : (body.all.map Chunk.data).filter (· ≠ []) = body.chunks.map Chunk.data := by
  have hchunks : (body.chunks.map Chunk.data).filter (· ≠ []) = body.chunks.map Chunk.data := by
    rw [filter_eq_self]
    intro data hmem
    obtain ⟨c, hc, rfl⟩ := mem_map.mp hmem
    simpa using body.data_ne_nil c hc
  have hzero : (body.zero.toList.map Chunk.data).filter (· ≠ []) = [] := by
    rw [filter_eq_nil_iff]
    intro data hmem
    obtain ⟨c, hc, rfl⟩ := mem_map.mp hmem
    simpa using body.data_eq_nil c (Option.mem_toList.mp hc)
  rw [Body.all, map_append, filter_append, hchunks, hzero, append_nil]

variable {body : Body}

theorem filter_complete {complete later : List Chunk} {c : Chunk} (hall : body.all = complete ++ c :: later) :
    (complete.map Chunk.data).filter (· ≠ []) = complete.map Chunk.data := by
  have hdone : complete <+: body.chunks := by
    have hlen := congrArg List.length hall
    have hzero : body.zero.toList.length ≤ 1 := by cases body.zero <;> simp
    simp only [Body.all, length_append, length_cons] at hlen
    have hfront : complete <+: body.all := ⟨c :: later, hall.symm⟩
    apply prefix_of_prefix_length_le hfront ⟨_, rfl⟩
    omega
  rw [filter_eq_self]
  intro data hmem
  obtain ⟨c, hc, rfl⟩ := mem_map.mp hmem
  simpa using body.data_ne_nil c (hdone.subset hc)

theorem onRead_nil_ok (hsize : h.pendingChunkSize = 0) (hexpect : h.expectHeader = false) :
    onRead h [] = .ok h := by
  rw [onRead, if_neg (by simp [hsize, hexpect]), loop_eq]
  rfl

theorem onRead_nil_error (hopen : h.pendingChunkSize ≠ 0 ∨ h.expectHeader = true) :
    onRead h [] = .error (.endOfFile, h) := if_pos ⟨rfl, hopen⟩

theorem run_encode {reads : List Bytes} (hreads : ∀ r ∈ reads, r ≠ [])
    (hall : body.all ≠ []) (hflat : reads.flatten = body.encode) :
    ∃ h, run reads = .ok h ∧ h.chunks = body.chunks.map Chunk.data := by
  have hempty : body.all.isEmpty = false := by simpa using hall
  rw [run_eq hreads, hflat, Body.encode, foldlM_all body.all between_init, ok_bind,
    onRead_nil_ok rfl (by simp [hempty])]
  refine ⟨_, rfl, ?_⟩
  rw [filter_data]
  rfl

theorem foldlM_part {c : Chunk} {part : Bytes} (hbetween : h.Between)
    (hpart : part ≠ [] ∧ part <+: c.size ++ [cr] ∨
      ∃ data, data <+: c.data ∧ data ≠ c.data ∧ part = c.sizeLine ++ data) :
    ∃ h', part.foldlM readByte h = .ok h' ∧ h'.chunks = h.chunks ∧
      (h'.pendingChunkSize ≠ 0 ∨ h'.expectHeader = true) := by
  obtain ⟨hne, hpart⟩ | ⟨data, hdata, hne, rfl⟩ := hpart
  · have hlf : lf ∉ part := fun hmem => c.lf_not_mem (hpart.subset hmem)
    rw [foldlM_header hne hlf hbetween.2 (.inr (Chunk.head_ne hpart))]
    exact ⟨_, rfl, rfl, .inr rfl⟩
  · have hlt : data.length < c.data.length := by
      have hle := hdata.length_le
      have hlen : data.length ≠ c.data.length := fun heq => hne (hdata.eq_of_length heq)
      omega
    rw [foldlM_append, foldlM_sizeLine c hbetween, ok_bind]
    by_cases hnil : data = []
    · subst hnil
      exact ⟨_, rfl, rfl, .inl (by simpa using hlt.ne')⟩
    · rw [foldlM_data hnil hlt.le, consume_of_lt hlt]
      refine ⟨_, rfl, rfl, .inl ?_⟩
      simp only
      omega

theorem run_truncated {reads : List Bytes} {complete : List Chunk}
    (hreads : ∀ r ∈ reads, r ≠ []) (hcut : body.Truncated complete reads.flatten) :
    ∃ h, run reads = .error (.endOfFile, h) ∧ h.chunks = complete.map Chunk.data := by
  obtain ⟨c, later, part, hall, hflat, hpart⟩ := hcut
  have hdone := foldlM_all complete between_init
  rw [filter_complete hall] at hdone
  rw [run_eq hreads, hflat, foldlM_append, hdone, ok_bind]
  have hbetween : Between
      { expectHeader := true && complete.isEmpty, chunks := [] ++ complete.map Chunk.data } := ⟨rfl, rfl⟩
  obtain ⟨h', hfold, hchunks, hopen⟩ := foldlM_part hbetween hpart
  rw [hfold, ok_bind, onRead_nil_error hopen]
  exact ⟨h', rfl, hchunks⟩

/-- Every body with at least one chunk is decoded from any reads, and one that is cut
inside a chunk is refused at its end. -/
theorem chunks_decoded (body : Body) (reads : List Bytes) (hreads : ∀ r ∈ reads, r ≠ []) :
    (body.all ≠ [] → reads.flatten = body.encode →
      ∃ h, run reads = .ok h ∧ h.chunks = body.chunks.map Chunk.data) ∧
    ∀ complete, body.Truncated complete reads.flatten →
      ∃ h, run reads = .error (.endOfFile, h) ∧ h.chunks = complete.map Chunk.data := by
  constructor
  · intro hall hflat
    exact run_encode hreads hall hflat
  · intro complete hcut
    exact run_truncated hreads hcut

/-- The chunk `a`. -/
def oneChunk : Chunk where
  size := [49]
  data := [97]
  size_ne_nil := by decide
  isHex_of_mem := by simp; decide
  hexNumber_size := rfl
  length_lt := by decide

def oneChunkBody : Body where
  chunks := [oneChunk]
  zero := none
  data_ne_nil := by simp [oneChunk]
  data_eq_nil := by simp

theorem chunks_decoded_one : ∃ h, run [[49, 13], [10, 97, 13, 10]] = .ok h ∧ h.chunks = [[97]] :=
  (chunks_decoded oneChunkBody [[49, 13], [10, 97, 13, 10]] (by simp)).1
    (by simp [Body.all, oneChunkBody]) rfl

/-- A body without any chunk: nothing is read, and the end of the file is refused. -/
theorem empty_body_refused : ∃ body : Body, body.chunks = [] ∧ body.encode = [] ∧
    run [] = .error (.endOfFile, {}) := by
  refine ⟨⟨[], none, by simp, by simp⟩, rfl, rfl, ?_⟩
  rw [run_eq (by simp)]
  exact onRead_nil_error (h := {}) (.inr rfl)

end HTTPChunkBasedReadHandle

end WslPlus.HandleIo
