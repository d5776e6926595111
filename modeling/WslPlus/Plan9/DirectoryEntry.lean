import WslPlus.Plan9.Fields
import WslPlus.Plan9.ReadDir

/-!
# Directory entries on the wire

`SpanWriteDirectoryEntry` writes an entry of a directory, with or without its attributes, if it
fits. The reader has the same traversal the other way round, and it cuts a name at a NUL.
-/

namespace WslPlus.Plan9

open List Program

/-- A `Qid` with any type, which is a set of flags. -/
structure RawQid where
  type : UInt8
  version : UInt32
  path : UInt64
deriving DecidableEq

structure DirectoryEntry where
  qid : RawQid
  offset : UInt64
  type : UInt8
  name : List Byte
deriving DecidableEq

def writeEntry (entry : DirectoryEntry) (stat : Option StatResult) : Writer Unit := do
  SpanWriter.u8 entry.qid.type
  SpanWriter.u32 entry.qid.version
  SpanWriter.u64 entry.qid.path
  SpanWriter.u64 entry.offset
  SpanWriter.u8 entry.type
  SpanWriter.string entry.name
  stat.elim (pure ()) SpanWriter.statResult

def spanWriteDirectoryEntry (entry : DirectoryEntry) (stat : Option StatResult) : Writer Bool := do
  let writer ← get
  if writer.maxSize - writer.size < dirEntrySize entry.name stat then return false
  else do
    writeEntry entry stat
    return true

namespace SpanReader

def tryRead (count : Nat) : Decoder (Option (List Byte)) :=
  ofFunction fun b => if b.length < count then (.ok none, b) else (.ok (some (b.take count)), b.drop count)

def rawQid : Decoder RawQid := do
  let type ← u8
  let version ← u32
  let path ← u64
  return { type, version, path }

def tryU16 : Decoder (Option UInt16) := do
  match ← tryRead 2 with
  | none => return none
  | some s => return some (UInt16.ofNat (leValue s))

def tryString : Decoder (Option Text) := do
  match ← tryU16 with
  | none => return none
  | some length =>
    match ← tryRead length.toNat with
    | none => return none
    | some s => return some (fixString s)

def tryDirectoryEntry : Decoder (Option DirectoryEntry) := do
  let message ← get
  if message.length < qidSize + 8 + 1 + 2 then return none
  let qid ← rawQid
  let offset ← u64
  let type ← u8
  match ← tryString with
  | none => return none
  | some name => return some { qid, offset, type, name := name.1 }

def readStatResult : Decoder StatResult := do
  let mode ← u32
  let uid ← u32
  let gid ← u32
  let nlink ← u64
  let rdev ← u64
  let size ← u64
  let blockSize ← u64
  let blocks ← u64
  let atimeSec ← u64
  let atimeNsec ← u64
  let mtimeSec ← u64
  let mtimeNsec ← u64
  let ctimeSec ← u64
  let ctimeNsec ← u64
  return { mode, uid, gid, nlink, rdev, size, blockSize, blocks, atimeSec, atimeNsec, mtimeSec, mtimeNsec, ctimeSec,
           ctimeNsec }

def tryStatResult : Decoder (Option StatResult) := do
  let message ← get
  if message.length < statResultSize then return none
  let stat ← readStatResult
  return some stat

/-- Entries one after the other, each with its attributes if it was written with them. -/
def entries : List Bool → Decoder (Option (List (DirectoryEntry × Option StatResult)))
  | [] => return some []
  | attributes :: rest => do
    let some entry ← tryDirectoryEntry | return none
    let stat ← if attributes then tryStatResult else pure none
    if attributes ∧ stat = none then return none
    let some others ← entries rest | return none
    return some ((entry, stat) :: others)

end SpanReader

def DirectoryEntry.bytes (entry : DirectoryEntry) (stat : Option StatResult) : List Byte :=
  leBytes 1 entry.qid.type.toNat ++ (leBytes 4 entry.qid.version.toNat ++ (leBytes 8 entry.qid.path.toNat ++
    (leBytes 8 entry.offset.toNat ++ (leBytes 1 entry.type.toNat ++ ((leBytes 2 entry.name.length ++ entry.name) ++
      (stat.map SpanWriter.statResultBytes).getD [])))))

/-- The bytes are those that `ReadDir` produces for the types of the server. -/
theorem bytes_eq_directoryEntryBytes (name : List Byte) (qid : Qid) (offset : UInt64) (type : UInt8)
    (stat : Option StatResult) :
    (DirectoryEntry.mk ⟨UInt8.ofNat qid.type.code, qid.version, qid.path⟩ offset type name).bytes stat
      = directoryEntryBytes name qid offset type stat := by
  have hcode : (UInt8.ofNat qid.type.code).toNat = qid.type.code := by cases qid.type <;> rfl
  simp only [DirectoryEntry.bytes, directoryEntryBytes, SpanWriter.qidBytes, hcode, append_assoc]

theorem length_bytes (entry : DirectoryEntry) (stat : Option StatResult) :
    (entry.bytes stat).length = dirEntrySize entry.name stat := by
  cases stat <;> simp [DirectoryEntry.bytes, dirEntrySize, qidSize] <;> omega

def Appends (m : Writer Unit) (bytes : List Byte) : Prop :=
  ∀ r : MessageResponse, r.size + bytes.length ≤ r.maxSize →
    exec m r = (.ok (), { r with payload := r.payload ++ bytes })

theorem appends_write (bytes : List Byte) : Appends (SpanWriter.write bytes) bytes := by
  intro r h
  rw [SpanWriter.write, exec_ofFunction, if_neg (Nat.not_lt.mpr h)]

theorem Appends.bind {m n : Writer Unit} {b c : List Byte} (hm : Appends m b) (hn : Appends n c) :
    Appends (m >>= fun _ => n) (b ++ c) := by
  intro r h
  rw [length_append] at h
  rw [exec_bind, hm r (by omega), andThen, hn _ (by simp only [MessageResponse.size, length_append] at h ⊢; omega)]
  simp only [append_assoc]

theorem appends_string {name : List Byte} (h : name.length < UInt16.size) :
    Appends (SpanWriter.string name) (leBytes 2 name.length ++ name) := by
  rw [SpanWriter.string, if_neg (Nat.not_le.mpr h)]
  apply Appends.bind
  · have hlen : (UInt16.ofNat name.length).toNat = name.length := by
      rw [UInt16.toNat_ofNat']
      exact Nat.mod_eq_of_lt h
    rw [SpanWriter.u16, hlen]
    exact appends_write _
  · exact appends_write name

theorem appends_entry {entry : DirectoryEntry} (stat : Option StatResult) (h : entry.name.length < UInt16.size) :
    Appends (writeEntry entry stat) (entry.bytes stat) := by
  refine (appends_write _).bind ((appends_write _).bind ((appends_write _).bind ((appends_write _).bind
    ((appends_write _).bind ((appends_string h).bind ?_)))))
  cases stat with
  | none =>
    intro r _
    rw [Option.elim_none, exec_pure, Option.map_none, Option.getD_none, append_nil]
  | some stat => exact appends_write _

/-- An entry that fits is appended, and one that does not fit changes nothing. -/
theorem exec_spanWriteDirectoryEntry {entry : DirectoryEntry} (stat : Option StatResult)
    (h : entry.name.length < UInt16.size) (r : MessageResponse) (hsize : r.size ≤ r.maxSize) :
    exec (spanWriteDirectoryEntry entry stat) r =
      if r.size + dirEntrySize entry.name stat ≤ r.maxSize then
        (.ok true, { r with payload := r.payload ++ entry.bytes stat })
      else (.ok false, r) := by
  rw [spanWriteDirectoryEntry, exec_bind, exec_get, andThen]
  split
  case isTrue hshort => rw [if_neg (by omega), exec_pure]
  case isFalse hroom =>
    rw [if_pos (by omega), exec_bind, appends_entry stat h r (by rw [length_bytes]; omega), andThen, exec_pure]

theorem exec_rawQid (qid : RawQid) (rest : List Byte) : exec SpanReader.rawQid (leBytes 1 qid.type.toNat ++
    (leBytes 4 qid.version.toNat ++ (leBytes 8 qid.path.toNat ++ rest))) = (.ok qid, rest) := by
  simp only [SpanReader.rawQid, exec_bind, exec_u8_leBytes, exec_u32_leBytes, exec_u64_leBytes, andThen, exec_pure]

theorem exec_tryRead (bytes rest : List Byte) :
    exec (SpanReader.tryRead bytes.length) (bytes ++ rest) = (.ok (some bytes), rest) := by
  rw [SpanReader.tryRead, exec_ofFunction, if_neg (by rw [length_append]; omega), take_left, drop_left]

theorem exec_tryString {name : List Byte} (h : name.length < UInt16.size) (rest : List Byte) :
    exec SpanReader.tryString (leBytes 2 name.length ++ (name ++ rest)) =
    (.ok (some (fixString name)), rest) := by
  have hread := exec_tryRead (leBytes 2 name.length) (name ++ rest)
  rw [leBytes_length] at hread
  have hlen : (UInt16.ofNat (leValue (leBytes 2 name.length))).toNat = name.length := by
    rw [leValue_leBytes, UInt16.toNat_ofNat', Nat.mod_eq_of_lt (show name.length < 256 ^ 2 from h)]
    exact Nat.mod_eq_of_lt h
  simp only [SpanReader.tryString, SpanReader.tryU16, exec_bind, hread, andThen, exec_pure, hlen, exec_tryRead]

def DirectoryEntry.cut (entry : DirectoryEntry) : DirectoryEntry :=
  { entry with name := (fixString entry.name).1 }

def statBytes (stat : Option StatResult) : List Byte := (stat.map SpanWriter.statResultBytes).getD []

theorem exec_tryDirectoryEntry {entry : DirectoryEntry} (stat : Option StatResult)
    (h : entry.name.length < UInt16.size) (rest : List Byte) :
    exec SpanReader.tryDirectoryEntry (entry.bytes stat ++ rest) =
    (.ok (some entry.cut), statBytes stat ++ rest) := by
  have hlen : ¬(entry.bytes stat ++ rest).length < qidSize + 8 + 1 + 2 := by
    rw [length_append, length_bytes, dirEntrySize]
    omega
  rw [SpanReader.tryDirectoryEntry, exec_bind, exec_get, andThen, if_neg hlen]
  simp only [exec_bind, andThen, DirectoryEntry.bytes, append_assoc, exec_rawQid, exec_u64_leBytes, exec_u8_leBytes,
    exec_tryString h, exec_pure]
  rfl

theorem exec_tryStatResult (stat : StatResult) (rest : List Byte) :
    exec SpanReader.tryStatResult (SpanWriter.statResultBytes stat ++ rest) = (.ok (some stat), rest) := by
  have hlen : ¬(SpanWriter.statResultBytes stat ++ rest).length < statResultSize := by
    rw [length_append, statResultBytes_length]
    omega
  rw [SpanReader.tryStatResult, exec_bind, exec_get, andThen, if_neg hlen]
  simp only [SpanReader.readStatResult, exec_bind, andThen, SpanWriter.statResultBytes, append_assoc,
    exec_u32_leBytes, exec_u64_leBytes, exec_pure]

abbrev Listing := List (DirectoryEntry × Option StatResult)

def Listing.bytes (written : Listing) : List Byte := written.flatMap fun w => w.1.bytes w.2

def writeAll : Listing → Writer Bool
  | [] => return true
  | w :: rest => do
    if ← spanWriteDirectoryEntry w.1 w.2 then writeAll rest else return false

theorem exec_entries {written : Listing} (h : ∀ w ∈ written, w.1.name.length < UInt16.size) (rest : List Byte) :
    exec (SpanReader.entries (written.map fun w => w.2.isSome)) (written.bytes ++ rest)
      = (.ok (some (written.map fun w => (w.1.cut, w.2))), rest) := by
  induction written with
  | nil => rfl
  | cons w written ih =>
    obtain ⟨entry, stat⟩ := w
    have ih := ih fun w hw => h w (mem_cons_of_mem _ hw)
    have hentry := exec_tryDirectoryEntry stat (h (entry, stat) mem_cons_self) (Listing.bytes written ++ rest)
    rw [map_cons, SpanReader.entries, Listing.bytes, flatMap_cons, append_assoc, exec_bind]
    change Program.andThen (exec _ (entry.bytes stat ++ (Listing.bytes written ++ rest))) _ = _
    rw [hentry, andThen]
    cases stat with
    | none => simp [exec_bind, andThen, statBytes, ih]
    | some stat =>
      have hstat := exec_tryStatResult stat (Listing.bytes written ++ rest)
      simp [exec_bind, andThen, statBytes, hstat, ih]

theorem exec_writeAll {written : Listing} (h : ∀ w ∈ written, w.1.name.length < UInt16.size)
    {r : MessageResponse}
    (hroom : r.size + written.bytes.length ≤ r.maxSize) :
    exec (writeAll written) r = (.ok true, { r with payload := r.payload ++ written.bytes }) := by
  induction written generalizing r with
  | nil => simp [writeAll, Listing.bytes]
  | cons w written ih =>
    have hsplit : Listing.bytes (w :: written) = w.1.bytes w.2 ++ Listing.bytes written := flatMap_cons
    rw [hsplit, length_append, length_bytes] at hroom
    rw [writeAll, exec_bind, exec_spanWriteDirectoryEntry w.2 (h w mem_cons_self) r (by omega), if_pos (by omega),
      andThen, if_pos rfl, ih (fun w hw => h w (mem_cons_of_mem _ hw)), hsplit]
    · simp only [append_assoc]
    · simp only [MessageResponse.size, length_append, length_bytes] at hroom ⊢
      omega

/-- Entries that fit are written one after the other and read back, each with its name up to the
first NUL, and nothing else is consumed. An entry that does not fit changes nothing. -/
theorem directory_entries_survive (written : Listing) (r : MessageResponse)
    (h : ∀ w ∈ written, w.1.name.length < UInt16.size) (hsize : r.size ≤ r.maxSize) :
    (r.size + written.bytes.length ≤ r.maxSize →
      exec (writeAll written) r = (.ok true, { r with payload := r.payload ++ written.bytes })) ∧
      (∀ rest, exec (SpanReader.entries (written.map fun w => w.2.isSome)) (written.bytes ++ rest)
        = (.ok (some (written.map fun w => (w.1.cut, w.2))), rest)) ∧
      (∀ w ∈ written, 0 ∉ w.1.name → w.1.cut = w.1) ∧
      ∀ w ∈ written, r.maxSize < r.size + (w.1.bytes w.2).length →
        exec (spanWriteDirectoryEntry w.1 w.2) r = (.ok false, r) := by
  refine ⟨exec_writeAll h, exec_entries h, ?_, ?_⟩
  · intro w _ hzero
    have hfix : (fixString w.1.name).1 = w.1.name := by
      apply takeWhile_eq_self_iff.mpr
      intro c hc
      simp only [bne_iff_ne]
      exact fun heq => hzero (heq ▸ hc)
    rw [DirectoryEntry.cut, hfix]
  · intro w hw hshort
    rw [length_bytes] at hshort
    rw [exec_spanWriteDirectoryEntry w.2 (h w hw) r hsize, if_neg (Nat.not_le.mpr hshort)]

theorem directory_entries_survive_two :
    let written : Listing := [(⟨⟨0x80, 0, 7⟩, 1, 4, [100]⟩, none), (⟨⟨0, 0, 8⟩, 2, 8, [102]⟩, some {})]
    exec (SpanReader.entries [false, true]) (written.bytes ++ [9])
      = (.ok (some (written.map fun w => (w.1.cut, w.2))), [9]) := by
  intro written
  exact (directory_entries_survive written (.initial 4096 true) (by decide) (by decide)).2.1 [9]

/-- A name with a NUL in it comes back without what follows it. -/
theorem name_cut_at_nul : ¬∀ (entry : DirectoryEntry) (rest : List Byte), entry.name.length < UInt16.size →
    exec SpanReader.tryDirectoryEntry (entry.bytes none ++ rest) = (.ok (some entry), rest) := by
  intro h
  have hread := h ⟨⟨0, 0, 0⟩, 0, 8, [97, 0, 98]⟩ [] (by decide)
  rw [exec_tryDirectoryEntry none (by decide) []] at hread
  revert hread
  decide

end WslPlus.Plan9
