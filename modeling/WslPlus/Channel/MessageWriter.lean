import WslPlus.Channel.MessageStream
import WslPlus.Text.StringArray

/-!
# Writing messages

A writer keeps a message in a buffer that grows behind the structure. What a call names inside the structure is
a field, known by its offset, as the buffer may move.
-/

namespace WslPlus.Channel

open List Text

/-- The structure of a message up to `Buffer`, and its size with the padding behind it. -/
structure MessageLayout where
  sizeOffset : Nat
  bufferOffset : Nat
  sizeOf : Nat
  inside : sizeOffset + 4 ≤ bufferOffset
  padded : bufferOffset ≤ sizeOf

/-- A field in front of `Buffer`, other than `MessageSize`. -/
structure Field (l : MessageLayout) (width : Nat) where
  offset : Nat
  inside : offset + width ≤ l.bufferOffset
  apart : offset + width ≤ l.sizeOffset ∨ l.sizeOffset + 4 ≤ offset

def Field.covers {l : MessageLayout} {width : Nat} (field : Field l width) (i : Nat) : Prop :=
  field.offset ≤ i ∧ i < field.offset + width

namespace MessageWriter

def load (offset : Nat) (buffer : Bytes) : Nat :=
  ((buffer.drop offset).take 4).foldr (fun b n => b.toNat + 256 * n) 0

variable (l : MessageLayout)

def size (buffer : Bytes) : Nat := load l.sizeOffset buffer

def setSize (buffer : Bytes) : Bytes := store l.sizeOffset (int32Bytes buffer.length) buffer

/-- The constructor. -/
def create (type : Bytes) (field : Field l type.length) : Bytes :=
  setSize l (store field.offset type (replicate l.bufferOffset 0))

def resize (count : Nat) (buffer : Bytes) : Bytes := buffer ++ replicate count 0

/-- `Span`. The `InsertBuffer` that it calls asks for the span of a buffer that is large enough. -/
def span (buffer : Bytes) : Bytes :=
  if buffer.length < l.sizeOf then setSize l (resize (l.sizeOf - buffer.length) buffer) else buffer

variable {l}

/-- `WriteRelativeIndex`, for the calls that have an index. -/
def writeRelativeIndex (value : Nat) : Option (Field l 4) → Bytes → Bytes
  | some field, buffer => store field.offset (int32Bytes value) buffer
  | none, buffer => buffer

variable (l) in
/-- `InsertBuffer`, with the offset of the span that it returns. -/
def insertBuffer (index : Option (Field l 4)) (bufferSize : Nat) (buffer : Bytes) : Bytes × Nat :=
  let value := size l buffer
  (span l (setSize l (writeRelativeIndex value index (resize bufferSize buffer))), value)

def writeString (index : Option (Field l 4)) (string buffer : Bytes) : Bytes :=
  writeRelativeIndex (size l buffer) index (setSize l (buffer ++ (string ++ [0])))

/-- A copy to the front of an inserted span. -/
def fill (index : Option (Field l 4)) (count : Nat) (bytes buffer : Bytes) : Bytes :=
  let inserted := insertBuffer l index count buffer
  store inserted.2 bytes inserted.1

variable (l) in
def writeSpan (bytes : Bytes) : Bytes → Bytes :=
  fill (none : Option (Field l 4)) bytes.length bytes

def arraySize (strings : List (Bytes)) : Nat := (strings.map fun s => (entry (CString.cString s)).length).sum + 4

/-- What `WriteStringArray` copies into its span. It throws at a string that is too long. -/
def arrayBytes (strings : List (Bytes)) : Bytes :=
  match writeStringArray strings with
  | some bytes => bytes
  | none => (strings.takeWhile fun s => (CString.cString s).length ≤ int32Max).flatMap fun s =>
      entry (CString.cString s)

def writeArray (index : Field l 4) (strings : List (Bytes)) : Bytes → Bytes :=
  fill (some index) (arraySize strings) (arrayBytes strings)

/-- The calls, and an assignment through `operator->`. -/
inductive Call (l : MessageLayout) where
  | assign (bytes : Bytes) (field : Field l bytes.length)
  | writeString (index : Option (Field l 4)) (string : Bytes)
  | writeSpan (bytes : Bytes)
  | insertBuffer (index sizeField : Option (Field l 4)) (bufferSize : Nat)
  | writeStringArray (index : Field l 4) (strings : List (Bytes))
  | span

def step : Call l → Bytes → Bytes
  | .assign bytes field, buffer => store field.offset bytes buffer
  | .writeString index string, buffer => writeString index string buffer
  | .writeSpan bytes, buffer => writeSpan l bytes buffer
  | .insertBuffer index sizeField bufferSize, buffer =>
    (insertBuffer l index bufferSize (writeRelativeIndex bufferSize sizeField buffer)).1
  | .writeStringArray index strings, buffer => writeArray index strings buffer
  | .span, buffer => span l buffer

/-- The total stays below 4 GiB. -/
abbrev Small (calls : List (Call l)) (buffer : Bytes) : Prop :=
  Allowed step (fun c buffer => (step c buffer).length < 4294967296) calls buffer

def At (buffer : Bytes) (offset : Nat) (bytes : Bytes) : Prop :=
  ∀ i < bytes.length, buffer[offset + i]? = bytes[i]?

/-- The buffer grows, and changes only where it is touched. -/
structure Edits (touched : Nat → Prop) (buffer buffer' : Bytes) : Prop where
  length : buffer.length ≤ buffer'.length
  same : ∀ i < buffer.length, ¬ touched i → buffer'[i]? = buffer[i]?

section Edits

variable {buffer buffer₁ buffer₂ bytes : Bytes} {offset : Nat} {touched touched' : Nat → Prop}

theorem Edits.refl (buffer : Bytes) : Edits touched buffer buffer := ⟨Nat.le_refl _, fun _ _ _ => rfl⟩

theorem Edits.trans (h : Edits touched buffer buffer₁) (h' : Edits touched buffer₁ buffer₂) :
    Edits touched buffer buffer₂ where
  length := Nat.le_trans h.length h'.length
  same i hi ht := (h'.same i (Nat.lt_of_lt_of_le hi h.length) ht).trans (h.same i hi ht)

theorem Edits.mono (h : Edits touched buffer buffer₁) (himp : ∀ i, touched i → touched' i) :
    Edits touched' buffer buffer₁ := ⟨h.length, fun i hi ht => h.same i hi fun h => ht (himp i h)⟩

theorem edits_append (touched : Nat → Prop) (buffer rest : Bytes) : Edits touched buffer (buffer ++ rest) where
  length := by rw [length_append]; omega
  same _ hi _ := getElem?_append_left hi

theorem getElem?_store (h : offset + bytes.length ≤ buffer.length) (i : Nat) : (store offset bytes buffer)[i]? =
    if offset ≤ i ∧ i < offset + bytes.length then bytes[i - offset]? else buffer[i]? := by
  have htake : (buffer.take offset).length = offset := length_take_of_le (by omega)
  rw [store, append_assoc, getElem?_append, htake]
  split
  · rw [if_neg (by omega), getElem?_take_of_lt (by omega)]
  · rw [getElem?_append]
    split
    · rw [if_pos (by omega)]
    · rw [if_neg (by omega), getElem?_drop]
      congr 1
      omega

theorem edits_store (h : offset + bytes.length ≤ buffer.length) :
    Edits (fun i => offset ≤ i ∧ i < offset + bytes.length) buffer (store offset bytes buffer) where
  length := (store_length h).ge
  same i _ ht := by rw [getElem?_store h, if_neg ht]

theorem at_store (h : offset + bytes.length ≤ buffer.length) : At (store offset bytes buffer) offset bytes := by
  intro i hi
  rw [getElem?_store h, if_pos (by omega), Nat.add_sub_cancel_left]

theorem At.edits (h : At buffer offset bytes) (hin : offset + bytes.length ≤ buffer.length)
    (he : Edits touched buffer buffer₁) (hnot : ∀ i < bytes.length, ¬ touched (offset + i)) :
    At buffer₁ offset bytes := by
  intro i hi
  rw [he.same _ (by omega) (hnot i hi), h i hi]

theorem at_append (buffer bytes rest : Bytes) : At (buffer ++ (bytes ++ rest)) buffer.length bytes := by
  intro i hi
  rw [getElem?_append_right (Nat.le_add_right _ _), Nat.add_sub_cancel_left, getElem?_append_left hi]

theorem At.split (h : At buffer offset bytes) :
    buffer.drop offset = bytes ++ buffer.drop (offset + bytes.length) := by
  apply ext_getElem?
  intro i
  rw [getElem?_drop, getElem?_append]
  split
  · exact h i ‹_›
  · rw [getElem?_drop]
    congr 1
    omega

/-- Bytes that are copied to the front of an appended part. -/
theorem Edits.store_appended {count : Nat} (h : Edits touched (buffer ++ replicate count 0) buffer₁)
    (hle : bytes.length ≤ count) :
    Edits touched (buffer ++ (bytes ++ replicate (count - bytes.length) 0)) (store buffer.length bytes buffer₁) := by
  have hlen := h.length
  rw [length_append, length_replicate] at hlen
  have hin : buffer.length + bytes.length ≤ buffer₁.length := by omega
  constructor
  · rw [store_length hin, length_append, length_append, length_replicate]
    omega
  · intro i hi ht
    simp only [length_append, length_replicate] at hi
    rw [getElem?_store hin]
    split
    · rw [getElem?_append_right (by omega), getElem?_append_left (by omega)]
    · rw [h.same i (by simp only [length_append, length_replicate]; omega) ht, getElem?_append, getElem?_append,
        getElem?_append]
      split
      · rfl
      · rw [if_neg (by omega), getElem?_replicate, getElem?_replicate]
        congr 1
        simp only [eq_iff_iff]
        omega

end Edits

section Size

variable {buffer buffer' : Bytes}

def inSize (l : MessageLayout) (i : Nat) : Prop := l.sizeOffset ≤ i ∧ i < l.sizeOffset + 4

/-- `MessageSize` is the size of the buffer. -/
structure Sized (l : MessageLayout) (buffer : Bytes) : Prop where
  length : l.bufferOffset ≤ buffer.length
  size : At buffer l.sizeOffset (int32Bytes buffer.length)

theorem At.load_eq {offset n : Nat} (h : At buffer offset (int32Bytes n)) (hsmall : n < 4294967296) :
    load offset buffer = n := by
  have hbytes : (buffer.drop offset).take 4 = int32Bytes n := by
    rw [h.split]
    exact take_left' rfl
  rw [load, hbytes]
  simp only [int32Bytes, foldr_cons, foldr_nil, UInt8.toNat_ofNat']
  omega

theorem edits_setSize (h : l.bufferOffset ≤ buffer.length) : Edits (inSize l) buffer (setSize l buffer) := by
  have hin : l.sizeOffset + (int32Bytes buffer.length).length ≤ buffer.length := Nat.le_trans l.inside h
  exact edits_store hin

theorem sized_setSize (h : l.bufferOffset ≤ buffer.length) : Sized l (setSize l buffer) := by
  have hin : l.sizeOffset + (int32Bytes buffer.length).length ≤ buffer.length := Nat.le_trans l.inside h
  have hlen : (setSize l buffer).length = buffer.length := store_length hin
  exact ⟨hlen ▸ h, hlen ▸ at_store hin⟩

theorem edits_span (h : Sized l buffer) : Edits (inSize l) buffer (span l buffer) := by
  unfold span
  split
  · have hedits := edits_append (inSize l) buffer (replicate (l.sizeOf - buffer.length) 0)
    exact hedits.trans (edits_setSize (Nat.le_trans h.length hedits.length))
  · exact .refl buffer

theorem sized_span (h : Sized l buffer) : Sized l (span l buffer) := by
  unfold span
  split
  · exact sized_setSize (Nat.le_trans h.length (edits_append (inSize l) _ _).length)
  · exact h

theorem Sized.keeps (h : Sized l buffer) {touched : Nat → Prop} (he : Edits touched buffer buffer')
    (hlen : buffer'.length = buffer.length) (hnot : ∀ i, touched i → ¬ inSize l i) : Sized l buffer' := by
  refine ⟨hlen ▸ h.length, hlen ▸ h.size.edits (Nat.le_trans l.inside h.length) he ?_⟩
  intro i hi ht
  exact hnot _ ht ⟨Nat.le_add_right _ _, Nat.add_lt_add_left hi _⟩

end Size

def Call.index : Call l → Option (Field l 4)
  | .writeString index _ | .insertBuffer index _ _ => index
  | .writeStringArray index _ => some index
  | _ => none

/-- The bytes that a call writes behind what is there. -/
def Call.data : Call l → Bytes
  | .writeString _ string => string ++ [0]
  | .writeSpan bytes => bytes
  | .insertBuffer _ _ bufferSize => replicate bufferSize 0
  | .writeStringArray _ strings => arrayBytes strings ++ replicate (arraySize strings - (arrayBytes strings).length) 0
  | _ => []

def Call.touches : Call l → Nat → Prop
  | .assign _ field, i => field.covers i
  | .insertBuffer index sizeField _, i => ∃ field, (field ∈ index ∨ field ∈ sizeField) ∧ field.covers i
  | c, i => ∃ field ∈ c.index, field.covers i

structure Consistent (c : Call l) (buffer buffer' : Bytes) : Prop where
  sized : Sized l buffer'
  grown : Edits (fun i => inSize l i ∨ c.touches i) (buffer ++ c.data) buffer'
  index : ∀ field ∈ c.index, At buffer' field.offset (int32Bytes buffer.length)
  assigned : ∀ bytes field, c = .assign bytes field → At buffer' field.offset bytes

section Calls

variable {buffer : Bytes} {index : Option (Field l 4)} {count : Nat}

theorem writeRelativeIndex_spec (index : Option (Field l 4)) (value : Nat) (h : l.bufferOffset ≤ buffer.length) :
    (writeRelativeIndex value index buffer).length = buffer.length ∧
      Edits (fun i => ∃ field ∈ index, field.covers i) buffer (writeRelativeIndex value index buffer) ∧
      ∀ field ∈ index, At (writeRelativeIndex value index buffer) field.offset (int32Bytes value) := by
  cases index with
  | none => exact ⟨rfl, .refl buffer, fun _ hmem => absurd hmem (Option.not_mem_none _)⟩
  | some field =>
    have hin : field.offset + (int32Bytes value).length ≤ buffer.length := Nat.le_trans field.inside h
    refine ⟨store_length hin, (edits_store hin).mono fun i hi => ⟨field, rfl, hi⟩, ?_⟩
    intro other hmem
    obtain rfl := Option.some.inj hmem
    exact at_store hin

theorem not_inSize {width : Nat} (field : Field l width) (i : Nat) (h : field.covers i) : ¬ inSize l i := by
  have hapart := field.apart
  unfold Field.covers at h
  unfold inSize
  omega

theorem insertBuffer_spec (h : Sized l buffer) (hsmall : (insertBuffer l index count buffer).1.length < 4294967296) :
    (insertBuffer l index count buffer).2 = buffer.length ∧ Sized l (insertBuffer l index count buffer).1 ∧
      Edits (fun i => inSize l i ∨ ∃ field ∈ index, field.covers i) (buffer ++ replicate count 0)
        (insertBuffer l index count buffer).1 ∧
      ∀ field ∈ index, At (insertBuffer l index count buffer).1 field.offset (int32Bytes buffer.length) := by
  have hgrown := edits_append (inSize l) buffer (replicate count 0)
  have hlen := Nat.le_trans h.length hgrown.length
  obtain ⟨hsame, hindex, hat⟩ := writeRelativeIndex_spec index (size l buffer) hlen
  have hlen' := hsame ▸ hlen
  have hsized := sized_setSize hlen'
  have hedits := (edits_setSize hlen').trans (edits_span hsized)
  have hall : Edits (fun i => inSize l i ∨ ∃ field ∈ index, field.covers i) (buffer ++ replicate count 0)
      (insertBuffer l index count buffer).1 := (hindex.mono fun i => .inr).trans (hedits.mono fun i => .inl)
  have hvalue : size l buffer = buffer.length :=
    h.size.load_eq (Nat.lt_of_le_of_lt (Nat.le_trans hgrown.length hall.length) hsmall)
  refine ⟨hvalue, sized_span hsized, hall, ?_⟩
  intro field hmem
  have hkept := (hat field hmem).edits (Nat.le_trans field.inside hlen') hedits fun i hi =>
    not_inSize field _ ⟨Nat.le_add_right _ _, Nat.add_lt_add_left hi _⟩
  rw [← hvalue]
  exact hkept

theorem fill_spec {bytes : Bytes} (index : Option (Field l 4)) (hle : bytes.length ≤ count) (h : Sized l buffer)
    (hsmall : (fill index count bytes buffer).length < 4294967296) : Sized l (fill index count bytes buffer) ∧
      Edits (fun i => inSize l i ∨ ∃ field ∈ index, field.covers i)
        (buffer ++ (bytes ++ replicate (count - bytes.length) 0)) (fill index count bytes buffer) ∧
      ∀ field ∈ index, At (fill index count bytes buffer) field.offset (int32Bytes buffer.length) := by
  simp only [fill] at hsmall ⊢
  generalize hinserted : insertBuffer l index count buffer = inserted at hsmall ⊢
  have hbound : inserted.1.length < 4294967296 := by
    simp only [store, length_append, length_take, length_drop] at hsmall
    omega
  obtain ⟨hvalue, hsized, hedits, hindex⟩ := insertBuffer_spec h (hinserted ▸ hbound)
  rw [hinserted] at hvalue hsized hedits hindex
  have hlen := hedits.length
  rw [length_append, length_replicate] at hlen
  have hin : buffer.length + bytes.length ≤ inserted.1.length := by omega
  have hfield := h.length
  have hsize := l.inside
  rw [hvalue]
  refine ⟨hsized.keeps (edits_store hin) (store_length hin) ?_, hedits.store_appended hle, ?_⟩
  · intro i hi
    unfold inSize
    omega
  · intro field hmem
    have hinside := field.inside
    refine (hindex field hmem).edits (Nat.le_trans field.inside hsized.length) (edits_store hin) ?_
    intro i hi
    have hi : i < 4 := hi
    omega

theorem length_arrayBytes (strings : List (Bytes)) : (arrayBytes strings).length ≤ arraySize strings := by
  unfold arrayBytes arraySize Text.writeStringArray
  rw [← length_flatMap]
  split
  next bytes heq =>
    split at heq
    · obtain rfl := Option.some.inj heq
      rw [length_append]
      exact Nat.le_refl _
    · cases heq
  next =>
    have hsplit := congrArg (flatMap fun s => entry (CString.cString s))
      (takeWhile_append_dropWhile (p := fun s => (CString.cString s).length ≤ int32Max) (l := strings))
    have hlen := congrArg List.length hsplit
    rw [flatMap_append, length_append] at hlen
    omega

theorem Edits.append {touched : Nat → Prop} {buffer buffer₁ : Bytes} (h : Edits touched buffer buffer₁)
    (hlen : buffer₁.length = buffer.length) (rest : Bytes) :
    Edits touched (buffer ++ rest) (buffer₁ ++ rest) where
  length := by rw [length_append, length_append, hlen]
  same i hi ht := by
    rw [getElem?_append, getElem?_append, hlen]
    split
    · rw [h.same i ‹_› ht]
    · rfl

theorem consistent_step (c : Call l) (h : Sized l buffer) (hsmall : (step c buffer).length < 4294967296) :
    Consistent c buffer (step c buffer) := by
  cases c with
  | assign bytes field =>
    have hin : field.offset + bytes.length ≤ buffer.length := Nat.le_trans field.inside h.length
    have hedits := edits_store hin
    refine ⟨h.keeps hedits (store_length hin) (not_inSize field), ?_,
      fun _ hmem => absurd hmem (Option.not_mem_none _), ?_⟩
    · simp only [Call.data, append_nil]
      exact hedits.mono fun i => .inr
    · intro bytes' field' heq
      cases heq
      exact at_store hin
  | writeString index string =>
    have hgrown := edits_append (inSize l) buffer (string ++ [0])
    have hlen := Nat.le_trans h.length hgrown.length
    have hsized := sized_setSize hlen
    obtain ⟨hsame, hindex, hat⟩ := writeRelativeIndex_spec index (size l buffer) hsized.length
    have hedits := edits_setSize hlen
    have hvalue : size l buffer = buffer.length := by
      refine h.size.load_eq (Nat.lt_of_le_of_lt ?_ hsmall)
      exact Nat.le_trans hgrown.length (Nat.le_trans hedits.length hsame.ge)
    refine ⟨hsized.keeps hindex hsame ?_, (hedits.mono fun i => .inl).trans (hindex.mono fun i => .inr), ?_,
      fun _ _ heq => by cases heq⟩
    · rintro i ⟨field, -, hi⟩
      exact not_inSize field i hi
    · rw [← hvalue]
      exact hat
  | writeSpan bytes =>
    obtain ⟨hsized, hedits, -⟩ := fill_spec none (Nat.le_refl bytes.length) h hsmall
    rw [Nat.sub_self, replicate_zero, append_nil] at hedits
    exact ⟨hsized, hedits, fun _ hmem => absurd hmem (Option.not_mem_none _), fun _ _ heq => by cases heq⟩
  | insertBuffer index sizeField bufferSize =>
    obtain ⟨hsame, hfield, -⟩ := writeRelativeIndex_spec sizeField bufferSize h.length
    have hsized : Sized l (writeRelativeIndex bufferSize sizeField buffer) := by
      refine h.keeps hfield hsame ?_
      rintro i ⟨field, -, hi⟩
      exact not_inSize field i hi
    obtain ⟨-, hsized', hedits, hindex⟩ := insertBuffer_spec hsized hsmall
    refine ⟨hsized', ?_, hsame ▸ hindex, fun _ _ heq => by cases heq⟩
    refine ((hfield.append hsame _).mono ?_).trans (hedits.mono ?_)
    · rintro i ⟨field, hmem, hi⟩
      exact .inr ⟨field, .inr hmem, hi⟩
    · rintro i (hi | ⟨field, hmem, hi⟩)
      · exact .inl hi
      · exact .inr ⟨field, .inl hmem, hi⟩
  | writeStringArray index strings =>
    obtain ⟨hsized, hedits, hindex⟩ := fill_spec (some index) (length_arrayBytes strings) h hsmall
    exact ⟨hsized, hedits, hindex, fun _ _ heq => by cases heq⟩
  | span =>
    refine ⟨sized_span h, ?_, fun _ hmem => absurd hmem (Option.not_mem_none _), fun _ _ heq => by cases heq⟩
    simp only [Call.data, append_nil]
    exact (edits_span h).mono fun i => .inl

theorem Call.touches_lt {c : Call l} {i : Nat} (h : inSize l i ∨ c.touches i) : i < l.bufferOffset := by
  have hfield : ∀ {width : Nat} (field : Field l width), field.covers i → i < l.bufferOffset :=
    fun field hi => Nat.lt_of_lt_of_le hi.2 field.inside
  obtain hsize | htouch := h
  · exact Nat.lt_of_lt_of_le hsize.2 l.inside
  · cases c with
    | assign bytes field => exact hfield field htouch
    | insertBuffer index sizeField bufferSize =>
      obtain ⟨field, -, hi⟩ := htouch
      exact hfield field hi
    | writeString | writeSpan | writeStringArray | span =>
      obtain ⟨field, -, hi⟩ := htouch
      exact hfield field hi

/-- No field is where a call writes its data. -/
theorem Consistent.at_data {c : Call l} {buffer' : Bytes} (hc : Consistent c buffer buffer')
    (h : Sized l buffer) : At buffer' buffer.length c.data := by
  have hdata := at_append buffer c.data []
  rw [append_nil] at hdata
  refine hdata.edits length_append.ge hc.grown fun i _ htouch => ?_
  have hlt := Call.touches_lt htouch
  have hlen := h.length
  omega

theorem Consistent.edits {c : Call l} {buffer' : Bytes} (hc : Consistent c buffer buffer') :
    Edits (fun i => inSize l i ∨ c.touches i) buffer buffer' := (edits_append _ _ _).trans hc.grown

theorem edits_run {calls : List (Call l)} (h : Sized l buffer)
    (hsmall : Small calls buffer) :
    Edits (fun i => inSize l i ∨ ∃ c ∈ calls, c.touches i) buffer (runSteps step calls buffer) := by
  induction calls generalizing buffer with
  | nil => exact .refl buffer
  | cons c calls ih =>
    have hc := consistent_step c h hsmall.1
    refine (hc.edits.mono ?_).trans ((ih hc.sized hsmall.2).mono ?_)
    · exact fun i hi => hi.imp_right fun htouch => ⟨c, mem_cons_self, htouch⟩
    · rintro i (hi | ⟨d, hd, htouch⟩)
      · exact .inl hi
      · exact .inr ⟨d, mem_cons_of_mem c hd, htouch⟩

theorem sized_create (type : Bytes) (field : Field l type.length) : Sized l (create l type field) ∧
    At (create l type field) field.offset type ∧ (create l type field).length = l.bufferOffset := by
  have hin : field.offset + type.length ≤ (replicate l.bufferOffset (0 : UInt8)).length := by
    rw [length_replicate]
    exact field.inside
  have hlen : (store field.offset type (replicate l.bufferOffset 0)).length = l.bufferOffset := by
    rw [store_length hin, length_replicate]
  have hkept := (at_store hin).edits (Nat.le_trans field.inside hlen.ge) (edits_setSize hlen.ge) fun i hi =>
    not_inSize field _ ⟨Nat.le_add_right _ _, Nat.add_lt_add_left hi _⟩
  exact ⟨sized_setSize hlen.ge, hkept, (store_length (Nat.le_trans l.inside hlen.ge)).trans hlen⟩

/-- After every call `MessageSize` is the size of the buffer; the call has written its data behind all that was
there, and its index holds where; and what is written stays, up to the fields that later calls name. -/
theorem message_writer_consistent (type : Bytes) (field : Field l type.length) (earlier later : List (Call l))
    (c : Call l) (hsmall : Small (earlier ++ c :: later) (create l type field)) :
    let before := runSteps step earlier (create l type field)
    let after := step c before
    At (create l type field) field.offset type ∧ Sized l before ∧ Consistent c before after ∧
      At after before.length c.data ∧
      Edits (fun i => inSize l i ∨ ∃ d ∈ later, d.touches i) after
        (runSteps step (earlier ++ c :: later) (create l type field)) := by
  intro before after
  obtain ⟨hcreate, htype, -⟩ := sized_create type field
  obtain ⟨hearlier, hlater⟩ := hsmall.split
  have hbefore : Sized l before :=
    inv_runSteps (fun c buffer h hsmall => (consistent_step c h hsmall).sized) hcreate hearlier
  have hc := consistent_step c hbefore hlater.1
  refine ⟨htype, hbefore, hc, hc.at_data hbefore, ?_⟩
  rw [runSteps_append]
  exact edits_run hc.sized hlater.2

theorem message_writer_consistent_padded :
    let l : MessageLayout := ⟨4, 21, 24, by decide, by decide⟩
    let buffer := create l [7, 0, 0, 0] ⟨0, by decide, by decide⟩
    let c : Call l := .writeString (some ⟨16, by decide, by decide⟩) [97]
    Consistent c buffer (step c buffer) ∧ runSteps step [c, .span] buffer =
      [7, 0, 0, 0, 24, 0, 0, 0, 0, 0, 0, 0, 0, 0, 0, 0, 21, 0, 0, 0, 0, 97, 0, 0] :=
  ⟨(message_writer_consistent [7, 0, 0, 0] ⟨0, by decide, by decide⟩ [] [.span]
    (.writeString (some ⟨16, by decide, by decide⟩) [97]) (by decide)).2.2.1, by decide⟩

/-- What a reader gets who follows the index of a call. -/
def Call.Found (message : Bytes) (index : Nat) : Call l → Prop
  | .writeString _ string => 0 ∉ string → fromSpan message index = some string
  | .writeStringArray _ strings => (∀ s ∈ strings, 0 ∉ s ∧ s.length ≤ int32Max) →
      arrayFromSpan message index = .strings strings
  | c => At message index c.data

section Found

variable {c : Call l} {before message : Bytes}

theorem Call.found_of_split (rest : Bytes) (h : message = before ++ (c.data ++ rest)) :
    c.Found message before.length := by
  subst h
  cases c with
  | writeString index string =>
    intro hstring
    have heq : (Call.writeString index string).data ++ rest = string ++ 0 :: rest := by
      simp only [Call.data, append_assoc, cons_append, nil_append]
    rw [fromSpan, if_neg (by simp), drop_left, heq, if_pos (by simp), CString.cString_append_zero hstring]
  | writeStringArray index strings =>
    intro hstrings
    have hall : strings.all fun s => (CString.cString s).length ≤ int32Max := by
      rw [all_eq_true]
      intro s hs
      rw [CString.cString_of_not_mem (hstrings s hs).1]
      exact decide_eq_true (hstrings s hs).2
    have hwritten : Text.writeStringArray strings = some (arrayBytes strings) := by
      rw [arrayBytes, Text.writeStringArray, if_pos hall]
    rw [Call.data, append_assoc, ← append_assoc]
    exact arrayFromSpan_written (fun s hs => (hstrings s hs).1) hwritten before _
  | assign | writeSpan | insertBuffer | span => exact at_append before _ rest

/-- The data of every call is found in the finished message behind its index, if no later call names the index. -/
theorem indexed_data_read_back {type : Bytes} {field : Field l type.length} {earlier later : List (Call l)}
    {f : Field l 4} (hf : f ∈ c.index) (hlater : ∀ d ∈ later, ∀ i, f.covers i → ¬ d.touches i)
    (hsmall : Small (earlier ++ c :: later) (create l type field)) :
    c.Found (runSteps step (earlier ++ c :: later) (create l type field))
      (load f.offset (runSteps step (earlier ++ c :: later) (create l type field))) := by
  obtain ⟨hearlier, hrest⟩ := hsmall.split
  have hbefore : Sized l (runSteps step earlier (create l type field)) :=
    inv_runSteps (fun c buffer h hsmall => (consistent_step c h hsmall).sized) (sized_create type field).1 hearlier
  rw [runSteps_append]
  change c.Found (runSteps step later (step c _)) (load f.offset (runSteps step later (step c _)))
  generalize runSteps step earlier (create l type field) = before at *
  have hc := consistent_step c hbefore hrest.1
  have hedits := edits_run hc.sized hrest.2
  have hgrown := hc.grown.length
  rw [length_append] at hgrown
  have hlen := hedits.length
  have hinside := hbefore.length
  generalize hmessage : runSteps step later (step c before) = message at *
  have hdata : At message before.length c.data := by
    refine (hc.at_data hbefore).edits hgrown hedits fun i _ htouch => ?_
    have hlt : before.length + i < l.bufferOffset := by
      obtain hsize | ⟨d, -, htouch⟩ := htouch
      · exact Call.touches_lt (c := c) (.inl hsize)
      · exact Call.touches_lt (.inr htouch)
    omega
  have hindex : At message f.offset (int32Bytes before.length) := by
    refine (hc.index f hf).edits (Nat.le_trans f.inside hc.sized.length) hedits fun i hi => ?_
    have hcovers : f.covers (f.offset + i) := ⟨Nat.le_add_right _ _, Nat.add_lt_add_left hi _⟩
    exact not_or.mpr ⟨not_inSize f _ hcovers, fun ⟨d, hd, htouch⟩ => hlater d hd _ hcovers htouch⟩
  have hvalue : load f.offset message = (message.take before.length).length := by
    rw [length_take_of_le (by omega)]
    exact hindex.load_eq (Nat.lt_of_le_of_lt (by omega) hrest.1)
  rw [hvalue]
  refine Call.found_of_split (message.drop (before.length + c.data.length)) ?_
  rw [← hdata.split, take_append_drop]

end Found

theorem indexed_data_read_back_argv :
    let l : MessageLayout := ⟨4, 21, 24, by decide, by decide⟩
    let f : Field l 4 := ⟨16, by decide, by decide⟩
    let message := runSteps step ([] ++ .writeStringArray f [[97], []] :: [.writeSpan [98]])
      (create l [7, 0, 0, 0] ⟨0, by decide, by decide⟩)
    arrayFromSpan message (load f.offset message) = .strings [[97], []] :=
  indexed_data_read_back (c := .writeStringArray _ _) rfl
    (forall_mem_singleton.mpr fun i _ ⟨_, hnone, _⟩ => Option.not_mem_none _ hnone) (by decide) (by decide)

end Calls

/-- A message of a writer that a reader takes. -/
structure Written where
  layout : MessageLayout
  header : layout.sizeOffset = 4 ∧ headerSize ≤ layout.bufferOffset ∧ layout.bufferOffset ≤ maxMessageSize
  type : Bytes
  field : Field layout type.length
  calls : List (Call layout)
  small : Allowed step (fun c buffer => (step c buffer).length ≤ maxMessageSize) calls (create layout type field)

def Written.message (w : Written) : Bytes := runSteps step w.calls (create w.layout w.type w.field)

theorem Written.isFrame (w : Written) : headerSize ≤ w.message.length ∧ w.message.length ≤ maxMessageSize ∧
    messageSize w.message = w.message.length := by
  have hstep : ∀ (c : Call w.layout) buffer, Sized w.layout buffer ∧ buffer.length ≤ maxMessageSize →
      (step c buffer).length ≤ maxMessageSize →
      Sized w.layout (step c buffer) ∧ (step c buffer).length ≤ maxMessageSize := fun c buffer h hsmall =>
    ⟨(consistent_step c h.1 (Nat.lt_of_le_of_lt hsmall (by decide))).sized, hsmall⟩
  obtain ⟨hsized, -, hlen⟩ := sized_create w.type w.field
  have hinv := inv_runSteps hstep ⟨hsized, hlen.trans_le w.header.2.2⟩ w.small
  have hload := hinv.1.size.load_eq (Nat.lt_of_le_of_lt hinv.2 (by decide))
  rw [w.header.1] at hload
  exact ⟨Nat.le_trans w.header.2.1 hinv.1.length, hinv.2, hload⟩

def Written.frame (w : Written) : Frame := ⟨w.message, w.isFrame⟩

/-- Every message that is written reaches the reader as it is, whatever receives are cancelled on the way. -/
theorem written_messages_arrive (written : List Written) (buffer : Bytes) (actions : List Reception.Action) :
    let messages := written.map Written.message
    let c := runSteps Reception.step actions (Reception.initial (written.map Written.frame) buffer)
    c.receiver.messages <+: messages ∧ c.receiver.error = none ∧
      (c.receiver.closed = true → c.receiver.messages = messages) ∧
      Leads Reception.step Reception.Waiting (fun c => c.receiver.messages = messages) c := by
  intro messages c
  have hmessages : (written.map Written.frame).map Subtype.val = messages := map_map
  have hc := (Reception.initial_tracks (written.map Written.frame) buffer).run actions
  rw [hmessages] at hc
  obtain ⟨rest, held, hs⟩ := hc.sound
  exact ⟨⟨rest, hs.messages.symm⟩, hs.error, hs.closed, hc.leads⟩

end MessageWriter

end WslPlus.Channel
