import WslPlus.Lib.Transition
import WslPlus.Plan9.Answer

/-!
# Reading a directory page by page

A client asks for the entries of a directory from the offset of the last entry that it
has got. The offset that the enumerator remembers may be that of an entry that did not
fit, but then it is not the offset that the client asks for.
-/

namespace WslPlus.Plan9

open List Program

section Entries

/-- An entry as a client sees it. -/
structure Listed where
  ino : UInt64
  off : UInt64
  type : UInt8
  name : List Byte

def Dirent.listed (e : Dirent) : Listed := ⟨e.ino, e.off, e.type, e.name.1⟩

def entrySize (attributes : Bool) (name : List Byte) : Nat :=
  qidSize + 8 + 1 + 2 + name.length + if attributes then statResultSize else 0

theorem dirEntrySize_eq {attributes : Bool} {stat : Option StatResult} (h : stat.isSome = attributes)
    (name : List Byte) : dirEntrySize name stat = entrySize attributes name := by
  rw [dirEntrySize, entrySize, h]

theorem entrySize_pos (attributes : Bool) (name : List Byte) : 0 < entrySize attributes name := by
  simp only [entrySize]
  omega

def decodeEntry (b : List Byte) : Listed where
  ino := UInt64.ofNat (leValue ((b.drop 5).take 8))
  off := UInt64.ofNat (leValue ((b.drop 13).take 8))
  type := UInt8.ofNat (leValue ((b.drop 21).take 1))
  name := (b.drop 24).take (leValue ((b.drop 22).take 2))

def decodeEntries (attributes : Bool) (b : List Byte) : List Listed :=
  if _h : b = [] then []
  else decodeEntry b :: decodeEntries attributes (b.drop (entrySize attributes (decodeEntry b).name))
termination_by b.length
decreasing_by
  have hpos := entrySize_pos attributes (decodeEntry b).name
  have hb := length_pos_iff.mpr _h
  rw [List.length_drop]
  omega

@[simp] theorem decodeEntries_nil (attributes : Bool) : decodeEntries attributes [] = [] := by
  rw [decodeEntries, dif_pos rfl]

theorem drop_field {b field rest : List Byte} {i n j : Nat} (h : b.drop i = field ++ rest)
    (hn : field.length = n) (hj : i + n = j) : b.drop j = rest := by
  rw [← hj, ← drop_drop, h]
  exact drop_left' hn

theorem decodeEntry_dirent (entry : Dirent) (stat : Option StatResult) (rest : List Byte) :
    decodeEntry (dirent entry stat ++ rest) = entry.listed := by
  have hino : entry.ino.toNat < 256 ^ 8 := entry.ino.toNat_lt
  have hoff : entry.off.toNat < 256 ^ 8 := entry.off.toNat_lt
  have htype : entry.type.toNat < 256 ^ 1 := entry.type.toNat_lt
  have hlen : entry.name.1.length < 256 ^ 2 := Nat.lt_trans entry.name.2 (by decide)
  obtain ⟨tail, hbytes⟩ : ∃ tail, dirent entry stat ++ rest =
      (leBytes 1 (dirEntryTypeToQidType entry.type).code ++ leBytes 4 0) ++
        (leBytes 8 entry.ino.toNat ++ (leBytes 8 entry.off.toNat ++ (leBytes 1 entry.type.toNat ++
          (leBytes 2 entry.name.1.length ++ (entry.name.1 ++ tail))))) := by
    refine ⟨(stat.map SpanWriter.statResultBytes).getD [] ++ rest, ?_⟩
    simp only [dirent, directoryEntryBytes, SpanWriter.qidBytes, append_assoc]
    rfl
  generalize dirent entry stat ++ rest = b at hbytes
  have h0 : b.drop 0 = _ := hbytes
  have h5 : b.drop 5 = _ := drop_field h0 (by rw [length_append, leBytes_length, leBytes_length]) rfl
  have h13 : b.drop 13 = _ := drop_field h5 (leBytes_length 8 _) rfl
  have h21 : b.drop 21 = _ := drop_field h13 (leBytes_length 8 _) rfl
  have h22 : b.drop 22 = _ := drop_field h21 (leBytes_length 1 _) rfl
  have h24 : b.drop 24 = _ := drop_field h22 (leBytes_length 2 _) rfl
  rw [decodeEntry, h5, h13, h21, h22, h24, take_left' (leBytes_length 8 _),
    take_left' (leBytes_length 8 _), take_left' (leBytes_length 1 _),
    take_left' (leBytes_length 2 _), leValue_leBytes, leValue_leBytes, leValue_leBytes, leValue_leBytes,
    Nat.mod_eq_of_lt hino, Nat.mod_eq_of_lt hoff, Nat.mod_eq_of_lt htype, Nat.mod_eq_of_lt hlen,
    take_left, UInt64.ofNat_toNat, UInt64.ofNat_toNat, UInt8.ofNat_toNat]
  rfl

theorem decodeEntries_dirent {attributes : Bool} {stat : Option StatResult} (h : stat.isSome = attributes)
    (entry : Dirent) (rest : List Byte) :
    decodeEntries attributes (dirent entry stat ++ rest) = entry.listed :: decodeEntries attributes rest := by
  have hlen : (dirent entry stat).length = entrySize attributes entry.name.1 := by
    rw [dirent, directoryEntryBytes_length, dirEntrySize_eq h]
  have hne : dirent entry stat ++ rest ≠ [] := by
    intro hnil
    have hpos := entrySize_pos attributes entry.name.1
    rw [append_eq_nil_iff] at hnil
    rw [← hlen, hnil.1] at hpos
    exact Nat.lt_irrefl 0 hpos
  rw [decodeEntries, dif_neg hne, decodeEntry_dirent]
  congr 2
  exact drop_left' hlen

end Entries

section Stream

variable {W : Type}

def offsetAt (entries : List Dirent) : Nat → UInt64
  | 0 => 0
  | i + 1 => (entries[i]?.map Dirent.off).getD 0

/-- A directory that does not change: its stream yields the entries in their order, and
goes to the position of an offset when it is told to. -/
structure Kernel.Lists (k : Kernel W) (dir : Dir) (entries : List Dirent) (position : W → Nat) : Prop where
  readdir : ∀ ctx w, (k.call ctx (.readdir dir) w).1 = .ok entries[position w]?
  advance : ∀ ctx w, position (k.call ctx (.readdir dir) w).2 =
    if position w < entries.length then position w + 1 else position w
  seekdir : ∀ ctx w i, i ≤ entries.length →
    position (k.call ctx (.seekdir dir (offsetAt entries i)) w).2 = i
  rewinddir : ∀ ctx w, position (k.call ctx (.rewinddir dir) w).2 = 0
  fstatat : ∀ ctx w path flags, position (k.call ctx (.fstatat (.stream dir) path flags) w).2 = position w

def Tracks (entries : List Dirent) (offset : UInt64) (position : Nat) : Prop :=
  ∀ i, i ≤ entries.length → offset = offsetAt entries i → position = i

theorem exec_attempt_syscall (k : Kernel W) (c : Call) (m : Machine W) :
    exec (attempt (syscall k c)) m = (.ok (k.call m.context c m.world).1, m.called k c) := by
  simp only [attempt, syscall, exec_ofFunction, Machine.called]
  rcases k.call m.context c m.world with ⟨r, w⟩
  cases r with
  | ok a => rfl
  | error e => rfl

variable {k : Kernel W} {dir : Dir} {entries : List Dirent} {position : W → Nat}

variable {i : Nat}

theorem Kernel.Lists.tracks (hk : k.Lists dir entries position) (w : W) (hi : i ≤ entries.length) :
    Tracks entries (offsetAt entries i) i := by
  intro j hj hoffset
  have hwi := hk.seekdir none w i hi
  rw [hoffset, hk.seekdir none w j hj] at hwi
  exact hwi.symm

theorem offsetAt_succ {entry : Dirent} (h : entries[i]? = some entry) :
    offsetAt entries (i + 1) = entry.off := by
  rw [offsetAt, h]
  rfl

variable {e : DirectoryEnumerator} {m : Machine W}

section

variable (hk : k.Lists dir entries position)
include hk

theorem exec_next_some (he : e.dir = dir) {entry : Dirent} (hentry : entries[position m.world]? = some entry) :
    ∃ m' : Machine W, exec (e.next k) m = (.ok (.ok (some entry), { e with lastOffset := entry.off }), m') ∧
      position m'.world = position m.world + 1 := by
  subst he
  have hlt := (List.getElem?_eq_some_iff.mp hentry).1
  refine ⟨m.called k (.readdir e.dir), ?_, ?_⟩
  · rw [DirectoryEnumerator.next, exec_bind, exec_attempt_syscall, hk.readdir, hentry]
    rfl
  · rw [Machine.called, hk.advance, if_pos hlt]

theorem exec_next_none (he : e.dir = dir) (hend : entries[position m.world]? = none) :
    ∃ m' : Machine W, exec (e.next k) m = (.ok (.ok none, e), m') ∧
      position m'.world = position m.world := by
  subst he
  have hle := List.getElem?_eq_none_iff.mp hend
  refine ⟨m.called k (.readdir e.dir), ?_, ?_⟩
  · rw [DirectoryEnumerator.next, exec_bind, exec_attempt_syscall, hk.readdir, hend]
    rfl
  · rw [Machine.called, hk.advance, if_neg (by omega)]

theorem exec_seek (he : e.dir = dir) (htracks : Tracks entries e.lastOffset (position m.world))
    (hi : i ≤ entries.length) :
    ∃ m' : Machine W, exec (e.seek k (offsetAt entries i)) m = (.ok ⟨dir, offsetAt entries i⟩, m') ∧
      position m'.world = i := by
  subst he
  rw [DirectoryEnumerator.seek]
  by_cases hsame : offsetAt entries i = e.lastOffset
  · rw [if_neg (fun hne => hne hsame), hsame]
    exact ⟨m, rfl, htracks i hi hsame.symm⟩
  · rw [if_pos hsame, DirectoryEnumerator.reposition]
    by_cases hzero : offsetAt entries i = 0
    · have hstart : i = 0 := (hk.tracks m.world hi 0 (Nat.zero_le _) hzero)
      rw [if_pos hzero, exec_bind, exec_bind, exec_attempt_syscall]
      refine ⟨_, rfl, ?_⟩
      rw [hstart]
      exact hk.rewinddir m.context m.world
    · rw [if_neg hzero, exec_bind, exec_bind, exec_attempt_syscall]
      exact ⟨_, rfl, hk.seekdir m.context m.world i hi⟩

theorem exec_attributesToUse (attributes : Bool) (entry : Dirent)
    (m : Machine W) :
    ∃ (stat : Option StatResult) (m' : Machine W),
      exec (attributesToUse k attributes dir entry) m = (.ok stat, m') ∧ stat.isSome = attributes ∧
        position m'.world = position m.world := by
  cases attributes with
  | false => exact ⟨none, m, rfl, rfl, rfl⟩
  | true =>
    have hstat : ∃ (stat : StatResult) (m' : Machine W),
        exec (entryAttributes k dir entry) m = (.ok stat, m') ∧ position m'.world = position m.world := by
      rw [entryAttributes, exec_bind, exec_attempt_syscall]
      have hpos := hk.fstatat m.context m.world
        (.name (if entry.name.1 = [dot] ∨ entry.name.1 = [dot, dot] then [] else entry.name.1))
        [.symlinkNofollow, .emptyPath]
      cases (k.call m.context (.fstatat (.stream dir)
          (.name (if entry.name.1 = [dot] ∨ entry.name.1 = [dot, dot] then [] else entry.name.1))
          [.symlinkNofollow, .emptyPath]) m.world).1 with
      | ok st => exact ⟨_, _, rfl, hpos⟩
      | error e => exact ⟨_, _, rfl, hpos⟩
    obtain ⟨stat, m', hexec, hpos⟩ := hstat
    refine ⟨some stat, m', ?_, rfl, hpos⟩
    rw [attributesToUse, if_pos rfl, exec_bind, hexec]
    rfl

end

end Stream

section Chunks

variable {W : Type} {k : Kernel W} {dir : Dir} {entries : List Dirent} {position : W → Nat}

def TooLong (entries : List Dirent) (attributes : Bool) (space p : Nat) : Prop :=
  ∃ entry, entries[p]? = some entry ∧ space < entrySize attributes entry.name.1

/-- The `n` entries from a position on, as the loop has written them, and where it has left
the stream: behind the entry that it has read last, which need not be one of the `n`. -/
structure Chunk (dir : Dir) (entries : List Dirent) (position : W → Nat) (attributes : Bool)
    (space p n : Nat) (r : ReadDirResult) (m : Machine W) : Prop where
  inside : p + n ≤ entries.length
  decoded : decodeEntries attributes r.bytes = ((entries.drop p).take n).map Dirent.listed
  stream : r.enumerator.dir = dir
  tracks : Tracks entries r.enumerator.lastOffset (position m.world)
  stops : n = 0 → p = entries.length ∨ TooLong entries attributes space p

variable {attributes : Bool} {m : Machine W}

theorem Chunk.nothing {space p : Nat} {r : ReadDirResult}
    (hp : p ≤ entries.length) (hbytes : r.bytes = []) (hstream : r.enumerator.dir = dir)
    (htracks : Tracks entries r.enumerator.lastOffset (position m.world))
    (hstops : p = entries.length ∨ TooLong entries attributes space p) :
    Chunk dir entries position attributes space p 0 r m := by
  refine ⟨hp, ?_, hstream, htracks, fun _ => hstops⟩
  rw [hbytes, decodeEntries_nil]
  rfl

theorem Chunk.cons {space space' p n : Nat} {r : ReadDirResult}
    {entry : Dirent} {stat : Option StatResult} (hentry : entries[p]? = some entry)
    (hstat : stat.isSome = attributes) (h : Chunk dir entries position attributes space' (p + 1) n r m) :
    Chunk dir entries position attributes space p (n + 1)
      { r with bytes := dirent entry stat ++ r.bytes } m := by
  obtain ⟨hlt, hget⟩ := List.getElem?_eq_some_iff.mp hentry
  have hinside := h.inside
  refine ⟨by omega, ?_, h.stream, h.tracks, nofun⟩
  rw [decodeEntries_dirent hstat, h.decoded, drop_eq_getElem_cons hlt, hget]
  rfl

theorem exec_readDirLoop (hk : k.Lists dir entries position) (attributes : Bool) (space : Nat)
    {e : DirectoryEnumerator} (written : Bool) (he : e.dir = dir)
    (hoffset : e.lastOffset = offsetAt entries (position m.world)) (hp : position m.world ≤ entries.length) :
    ∃ (r : ReadDirResult) (m' : Machine W) (n : Nat),
      exec (readDirLoop k attributes e space written) m = (.ok r, m') ∧
        Chunk dir entries position attributes space (position m.world) n r m' ∧
        (r.result = .ok () ∨ written = false ∧ TooLong entries attributes space (position m.world)) := by
  induction space using Nat.strongRecOn generalizing e m written with
  | ind space ih =>
    rw [readDirLoop, exec_bind]
    cases hentry : entries[position m.world]? with
    | none =>
      obtain ⟨m₁, hnext, hposition⟩ := exec_next_none hk he hentry
      have hend : position m.world = entries.length :=
        Nat.le_antisymm hp (List.getElem?_eq_none_iff.mp hentry)
      rw [hnext]
      refine ⟨⟨.ok (), [], e⟩, m₁, 0, rfl, Chunk.nothing hp rfl he ?_ (Or.inl hend), Or.inl rfl⟩
      rw [hposition, hoffset]
      exact hk.tracks m.world hp
    | some entry =>
      obtain ⟨m₁, hnext, hposition⟩ := exec_next_some hk he hentry
      obtain ⟨stat, m₂, hstat, hsome, hkept⟩ := exec_attributesToUse hk attributes entry m₁
      have hlt := (List.getElem?_eq_some_iff.mp hentry).1
      have hbehind : position m₂.world = position m.world + 1 := by rw [hkept, hposition]
      have hoff : entry.off = offsetAt entries (position m₂.world) := by
        rw [hbehind, offsetAt_succ hentry]
      subst he
      rw [hnext, andThen, exec_bind, hstat, andThen]
      by_cases hspace : space < dirEntrySize entry.name.1 stat
      · have htoolong : TooLong entries attributes space (position m.world) :=
          ⟨entry, hentry, by rw [← dirEntrySize_eq hsome]; exact hspace⟩
        rw [dif_pos hspace]
        refine ⟨⟨if written then .ok () else .error .inval, [], ⟨e.dir, entry.off⟩⟩, m₂, 0, rfl,
          Chunk.nothing hp rfl rfl ?_ (Or.inr htoolong), ?_⟩
        · change Tracks entries entry.off _
          rw [hoff]
          exact hk.tracks m.world (by omega)
        · cases written with
          | true => exact Or.inl rfl
          | false => exact Or.inr ⟨rfl, htoolong⟩
      · have hpos := dirEntrySize_pos entry.name.1 stat
        obtain ⟨r, m₃, n, hrest, hchunk, hres⟩ :=
          ih (space - dirEntrySize entry.name.1 stat) (by omega) (e := ⟨e.dir, entry.off⟩) true rfl hoff
            (by omega)
        rw [dif_neg hspace, exec_bind, hrest]
        rw [hbehind] at hchunk
        refine ⟨_, m₃, n + 1, rfl, hchunk.cons hentry hsome, ?_⟩
        rcases hres with hok | ⟨hfalse, -⟩
        · exact Or.inl hok
        · cases hfalse

/-- An open file reads a directory through its enumerator, or will do so through one that
starts at the first entry. -/
def ReadsFrom (k : Kernel W) (dir : Dir) (entries : List Dirent) (position : W → Nat) (f : File) (w : W) :
    Prop :=
  match f.enumerator with
  | some e => e.dir = dir ∧ Tracks entries e.lastOffset (position w)
  | none => ∃ fd, f.file = some fd ∧ ∀ ctx w, (k.call ctx (.fdopendir fd) w).1 = .ok dir ∧
      position (k.call ctx (.fdopendir fd) w).2 = 0

/-- What a request for the entries from a position on has led to. -/
structure PageRead (k : Kernel W) (dir : Dir) (entries : List Dirent) (position : W → Nat) (attributes : Bool)
    (count p n : Nat) (bytes : List Byte) (f : File) (m : Machine W) : Prop where
  inside : p + n ≤ entries.length
  decoded : decodeEntries attributes bytes = ((entries.drop p).take n).map Dirent.listed
  fits : bytes.length ≤ count
  file : ReadsFrom k dir entries position f m.world
  ends : n = 0 → p = entries.length

theorem PageRead.count_of_empty {count p n : Nat} {f : File}
    (h : PageRead k dir entries position attributes count p n [] f m) : n = 0 := by
  have hinside := h.inside
  have hlen := congrArg List.length h.decoded
  rw [decodeEntries_nil, length_map, length_take, List.length_drop, length_nil] at hlen
  omega

theorem exec_readFrom (hk : k.Lists dir entries position) {e : DirectoryEnumerator} (f : File)
    (he : e.dir = dir) (htracks : Tracks entries e.lastOffset (position m.world)) {i count : Nat}
    (hi : i ≤ entries.length) (hlong : ¬TooLong entries attributes count i) :
    ∃ (bytes : List Byte) (f' : File) (m' : Machine W) (n : Nat),
      exec (File.readDir.readFrom k (offsetAt entries i) count attributes f e) m = (.ok (.ok bytes, f'), m') ∧
        PageRead k dir entries position attributes count i n bytes f' m' := by
  obtain ⟨m₁, hseek, hpos⟩ := exec_seek hk he htracks hi
  obtain ⟨r, m₂, n, hloop, hchunk, hres⟩ :=
    exec_readDirLoop hk attributes count (e := ⟨dir, offsetAt entries i⟩) (m := m₁) false rfl
      (by rw [hpos]) (by omega)
  rw [hpos] at hchunk hres
  have hfits := yields_readDirLoop k attributes ⟨dir, offsetAt entries i⟩ count false m₁ trivial
  rw [hloop] at hfits
  have hok : r.result = .ok () := by
    rcases hres with hok | ⟨-, htoolong⟩
    · exact hok
    · exact absurd htoolong hlong
  refine ⟨r.bytes, { f with enumerator := some r.enumerator }, m₂, n, ?_, hchunk.inside, hchunk.decoded, hfits.1,
    ⟨hchunk.stream, hchunk.tracks⟩, fun hn => ?_⟩
  · rw [File.readDir.readFrom, exec_bind, hseek, andThen, exec_bind, hloop, andThen, exec_pure, hok]
    rfl
  · rcases hchunk.stops hn with hend | htoolong
    · exact hend
    · exact absurd htoolong hlong

theorem exec_readDir (hk : k.Lists dir entries position) {f : File}
    (hf : ReadsFrom k dir entries position f m.world) {i count : Nat} (hi : i ≤ entries.length)
    (hlong : ¬TooLong entries attributes count i) :
    ∃ (bytes : List Byte) (f' : File) (m' : Machine W) (n : Nat),
      exec (f.readDir k (offsetAt entries i) count attributes) m = (.ok (.ok bytes, f'), m') ∧
        PageRead k dir entries position attributes count i n bytes f' m' := by
  rw [File.readDir]
  cases henumerator : f.enumerator with
  | some e =>
    have hopen : f.isOpen = true := by simp [File.isOpen, henumerator]
    rw [ReadsFrom, henumerator] at hf
    rw [hopen]
    exact exec_readFrom hk f hf.1 hf.2 hi hlong
  | none =>
    rw [ReadsFrom, henumerator] at hf
    obtain ⟨fd, hfile, hopendir⟩ := hf
    obtain ⟨hanswer, hstart⟩ := hopendir m.context m.world
    have hopen : f.isOpen = true := by simp [File.isOpen, hfile]
    have hcall : exec (orThrow (syscall k (.fdopendir fd))) m = (.ok dir, m.called k (.fdopendir fd)) := by
      simp only [orThrow, syscall, exec_ofFunction, hanswer]
      rfl
    have htracks : Tracks entries 0 (position (m.called k (.fdopendir fd)).world) := by
      rw [Machine.called, hstart]
      exact hk.tracks m.world (Nat.zero_le _)
    obtain ⟨bytes, f', m', n, hexec, hpage⟩ :=
      exec_readFrom hk { f with file := none } (e := ⟨dir, 0⟩) rfl htracks hi hlong
    refine ⟨bytes, f', m', n, ?_, hpage⟩
    rw [hopen, hfile]
    simp only [Bool.not_true, Bool.false_eq_true, if_false]
    rw [exec_bind, hcall]
    exact hexec

end Chunks

section Requests

variable {W : Type}

/-- A `Treaddir` or `TWreaddir` without its offset, and the buffer for its response, in which
there is room for an error. -/
structure Page where
  attributes : Bool
  count : UInt32
  tag : UInt16
  buffer : MessageResponse
  empty : buffer.payload = []
  room : headerSize + 4 ≤ buffer.maxSize

namespace Page

def type (p : Page) : MessageType := if p.attributes then .wreaddir else .readdir

def body (p : Page) (fid : UInt32) (offset : UInt64) : List Byte :=
  leBytes 4 fid.toNat ++ (leBytes 8 offset.toNat ++ (leBytes 4 p.count.toNat ++ []))

def message (p : Page) (fid : UInt32) (offset : UInt64) : List Byte := frame p.type p.tag (p.body fid offset)

/-- The response fits in what was negotiated and in the buffer, and the version of the
protocol has the request. -/
def Admitted (p : Page) (s : Session W) : Prop :=
  EnsureFits p.buffer s (getMessageSize .readdir + p.count.toNat) ∧ (p.attributes = true → s.use9P2000W = true)

instance Admitted.decidable (p : Page) (s : Session W) : Decidable (p.Admitted s) :=
  inferInstanceAs (Decidable (_ ∧ _))

end Page

def pageData (response : List Byte) : List Byte :=
  ((messageBody response).drop 4).take (leValue ((messageBody response).take 4))

theorem handleMessage_page (env : Environment W) (p : Page) :
    handleMessage env (some p.type) = handleReadDir env p.attributes := by
  rcases p with ⟨attributes, count, tag, buffer, hempty, hroom⟩
  cases attributes with
  | true => rfl
  | false => rfl

variable {env : Environment W} {s : Session W} {fid : UInt32} {offset : UInt64} {f : File} {p : Page}

def readDirReply (env : Environment W) (fid : UInt32) (f : File) (offset : UInt64) (count : Nat)
    (attributes : Bool) : Handler W Unit := do
  ensureSize .readdir count
  dataSpace count
  let (r, file) ← sys (f.readDir env.kernel offset count attributes)
  storeFile fid file
  match r with
  | .error e => throw (.error e)
  | .ok bytes =>
    reply (SpanWriter.u32 (UInt32.ofNat bytes.length))
    reply (SpanWriter.next bytes.length bytes)

theorem exec_readDirEntries (tag : UInt16) (attributes : Bool) (r : MessageResponse)
    (hfid : s.fids fid = some (.file f)) :
    exec (readDirEntries env attributes) ⟨s, tag, p.body fid offset, r⟩ =
      exec (readDirReply env fid f offset p.count.toNat attributes) ⟨s, tag, [], r⟩ := by
  rw [readDirEntries, exec_read_bind, Page.body, exec_u32_leBytes, andThen, exec_read_bind, exec_u64_leBytes,
    andThen, exec_read_bind, exec_u32_leBytes, andThen, exec_bind, exec_lookupFid, hfid]
  rfl

theorem exec_handleReadDir_refused (env : Environment W) (offset : UInt64) (tag : UInt16)
    (hfid : s.fids fid = some (.file f)) (href : ¬p.Admitted s) :
    ∃ (e : Stop) (y : Exchange W), e.Calm ∧ y.session = s ∧
      exec (handleReadDir env p.attributes) ⟨s, tag, p.body fid offset, p.buffer⟩ = (.error e, y) := by
  rw [handleReadDir, exec_bind, session, exec_ofFunction, andThen]
  by_cases hversion : (p.attributes && !s.use9P2000W) = true
  · rw [if_pos hversion]
    exact ⟨.error .notsup, _, trivial, rfl, exec_throw _ _⟩
  · have hfits : ¬EnsureFits p.buffer s (getMessageSize .readdir + p.count.toNat) := by
      intro hfits
      refine href ⟨hfits, fun hattributes => ?_⟩
      by_contra hnone
      exact hversion (by simp [hattributes, hnone])
    rw [if_neg hversion, exec_readDirEntries tag _ _ hfid, readDirReply, exec_bind, exec_ensureSize rfl p.empty,
      if_neg hfits]
    exact ⟨.thrown .inval, _, trivial, rfl, rfl⟩

theorem exec_dataSpace {count : Nat} {x : Exchange W}
    (h : x.response.size + 4 + count ≤ x.response.maxSize) : exec (dataSpace count) x = (.ok (), x) := by
  rw [dataSpace, exec_ofFunction, if_neg (Nat.not_lt.mpr h)]

theorem exec_reply_data {bytes : List Byte} {x : Exchange W} (hbytes : bytes.length < UInt32.size)
    (hspace : x.response.size + 4 + bytes.length ≤ x.response.maxSize) :
    exec (do
      reply (SpanWriter.u32 (UInt32.ofNat bytes.length))
      reply (SpanWriter.next bytes.length bytes)) x =
    (.ok (), { x with response := { x.response with payload := x.response.payload ++ leBytes 4 bytes.length ++ bytes } }) := by
  have hlen : (UInt32.ofNat bytes.length).toNat = bytes.length := by
    rw [UInt32.toNat_ofNat']
    exact Nat.mod_eq_of_lt hbytes
  have hnext : SpanWriter.next bytes.length bytes = SpanWriter.write bytes := by
    rw [SpanWriter.next, take_length, Nat.sub_self, replicate_zero, append_nil]
  have hcount : ¬x.response.maxSize < x.response.size + (leBytes 4 bytes.length).length := by
    rw [leBytes_length]
    omega
  rw [hnext, exec_bind, SpanWriter.u32, hlen, exec_reply_write, if_neg hcount, andThen, exec_reply_write, if_neg]
  simp only [MessageResponse.size, length_append, leBytes_length] at hspace ⊢
  omega

theorem exec_handleReadDir_admitted (tag : UInt16) (hfid : s.fids fid = some (.file f))
    (hadmitted : p.Admitted s) {bytes : List Byte} {f' : File} {m' : Machine W}
    (hread : exec (f.readDir env.kernel offset p.count.toNat p.attributes) s.machine = (.ok (.ok bytes, f'), m'))
    (hbytes : bytes.length ≤ p.count.toNat) :
    ∃ y : Exchange W, y.session = ({ s with machine := m' } : Session W).setFid fid (some (.file f')) ∧
      y.response.payload = leBytes 4 bytes.length ++ bytes ∧
      exec (handleReadDir env p.attributes) ⟨s, tag, p.body fid offset, p.buffer⟩ = (.ok (), y) := by
  obtain ⟨hfits, hversion⟩ := hadmitted
  have hsize : getMessageSize .readdir = 11 := rfl
  have hversion' : ¬(p.attributes && !s.use9P2000W) = true := by
    intro h
    rw [Bool.and_eq_true, Bool.not_eq_true'] at h
    rw [hversion h.1] at h
    cases h.2
  let granted : MessageResponse :=
    { p.buffer with
      maxSize := max p.buffer.maxSize (getMessageSize .readdir + p.count.toNat)
      reserved := getMessageSize .readdir + p.count.toNat }
  have hspace : granted.size + 4 + p.count.toNat ≤ granted.maxSize := by
    have hheader : granted.size = 7 := by
      change headerSize + p.buffer.payload.length = 7
      rw [p.empty]
      rfl
    have hmax := le_max_right p.buffer.maxSize (getMessageSize .readdir + p.count.toNat)
    change _ ≤ max p.buffer.maxSize (getMessageSize .readdir + p.count.toNat)
    omega
  rw [handleReadDir, exec_bind, session, exec_ofFunction, andThen, if_neg hversion',
    exec_readDirEntries tag _ _ hfid, readDirReply, exec_bind, exec_ensureSize rfl p.empty, if_pos hfits, andThen,
    exec_bind, exec_dataSpace (x := ⟨s, tag, [], granted⟩) hspace, andThen, exec_bind, exec_sys_ok hread, andThen, exec_bind]
  refine ⟨_, ?_, ?_, exec_reply_data (Nat.lt_of_le_of_lt hbytes p.count.toNat_lt)
    (Nat.le_trans (Nat.add_le_add_left hbytes _) hspace)⟩
  · rfl
  · change p.buffer.payload ++ _ ++ _ = _
    rw [p.empty]
    rfl

end Requests

section Client

variable {W : Type}

/-- A connection, and the pages that its client has got from it. -/
structure Client (W : Type) where
  session : Session W
  pages : List (Page × List Byte)

def listing (pages : List (Page × List Byte)) : List Listed :=
  pages.flatMap fun page => decodeEntries page.1.attributes page.2

def resumeOffset (entries : List Listed) : UInt64 := (entries.getLast?.map Listed.off).getD 0

def ask (env : Environment W) (fid : UInt32) (p : Page) (c : Client W) : Client W :=
  let r := processMessage env p.buffer (p.message fid (resumeOffset (listing c.pages))) c.session
  match r.1 with
  | .answer response =>
    if messageCode response = p.type.code + 1 then ⟨r.2, c.pages ++ [(p, pageData response)]⟩
    else ⟨r.2, c.pages⟩
  | _ => ⟨r.2, c.pages⟩

def BigEnough (entries : List Dirent) (p : Page) (c : Client W) : Prop :=
  ∀ entry, entries[(listing c.pages).length]? = some entry → entrySize p.attributes entry.name.1 ≤ p.count.toNat

theorem pageData_result {r : MessageResponse} {bytes : List Byte} (type : UInt8) (tag : UInt16)
    (hpay : r.payload = leBytes 4 bytes.length ++ bytes) (hbytes : bytes.length < UInt32.size) :
    pageData (r.result type tag) = bytes := by
  have hlt : bytes.length < 256 ^ 4 := hbytes
  rw [pageData, MessageResponse.messageBody_result, hpay, take_left' (leBytes_length 4 _),
    drop_left' (leBytes_length 4 _), leValue_leBytes, Nat.mod_eq_of_lt hlt, take_length]

variable {env : Environment W} {fid : UInt32} {p : Page} {c : Client W} {f : File}

theorem processMessage_page (s : Session W) (offset : UInt64) :
    processMessage env p.buffer (p.message fid offset) s =
      let x := exec (handleReadDir env p.attributes) ⟨s, p.tag, p.body fid offset, p.buffer⟩
      (respond p.type.code p.tag p.buffer x.1 x.2.response, x.2.session) := by
  have hcode : messageCode (p.message fid offset) = p.type.code := by
    rw [Page.message, frame_eq_result, MessageResponse.messageCode_result]
  have htag : messageTag (p.message fid offset) = p.tag := by
    rw [Page.message, frame_eq_result, MessageResponse.messageTag_result]
  have hbody : messageBody (p.message fid offset) = p.body fid offset := by
    rw [Page.message, frame_eq_result, MessageResponse.messageBody_result]
  have htype : messageType (p.message fid offset) = some p.type := by
    rw [messageType, hcode, Page.type]
    cases p.attributes with
    | true => rfl
    | false => rfl
  have hlen : headerSize ≤ (p.message fid offset).length := by
    rw [Page.message, frame_eq_result, MessageResponse.result_length]
    exact Nat.le_add_right _ _
  rw [processMessage_eq hlen, htype, handleMessage_page, htag, hbody, hcode]

theorem respond_refused {e : Stop} (he : e.Calm) (response : MessageResponse) :
    ∃ w : MessageResponse, respond p.type.code p.tag p.buffer (.error e) response =
      .answer (w.result (MessageType.lerror.code + 1) p.tag) := by
  have hwrite (n : UInt32) : exec (SpanWriter.u32 n) p.buffer =
      (.ok (), { p.buffer with payload := p.buffer.payload ++ leBytes 4 n.toNat }) := by
    have hroom := p.room
    rw [SpanWriter.u32, SpanWriter.write, exec_ofFunction, if_neg]
    rw [MessageResponse.size, p.empty, leBytes_length]
    exact Nat.not_lt.mpr hroom
  cases e with
  | error e =>
    simp only [respond, hwrite]
    exact ⟨_, rfl⟩
  | thrown e =>
    simp only [respond, hwrite]
    exact ⟨_, rfl⟩
  | failFast => exact he.elim
  | terminate => exact he.elim
  | stuck => exact he.elim

variable {s : Session W}

theorem ask_answer {response : List Byte}
    (h : processMessage env p.buffer (p.message fid (resumeOffset (listing c.pages))) c.session =
      (.answer response, s)) :
    ask env fid p c =
      ⟨s, if messageCode response = p.type.code + 1 then c.pages ++ [(p, pageData response)] else c.pages⟩ := by
  delta ask
  rw [h]
  dsimp only
  split
  · rfl
  · rfl

theorem ask_refused (hfid : c.session.fids fid = some (.file f)) (href : ¬p.Admitted c.session) :
    ask env fid p c = c := by
  obtain ⟨e, y, hcalm, hsess, hexec⟩ :=
    exec_handleReadDir_refused env (resumeOffset (listing c.pages)) p.tag hfid href
  obtain ⟨w, hrespond⟩ := respond_refused (p := p) hcalm y.response
  have hcode : messageCode (w.result (MessageType.lerror.code + 1) p.tag) ≠ p.type.code + 1 := by
    rw [MessageResponse.messageCode_result, Page.type]
    cases p.attributes with
    | true => decide
    | false => decide
  have hanswer : processMessage env p.buffer (p.message fid (resumeOffset (listing c.pages))) c.session =
      (.answer (w.result (MessageType.lerror.code + 1) p.tag), y.session) := by
    simp only [processMessage_page, hexec, hrespond]
  rw [ask_answer hanswer, if_neg hcode, hsess]

theorem ask_admitted (hfid : c.session.fids fid = some (.file f)) (hadmitted : p.Admitted c.session)
    {bytes : List Byte} {f' : File} {m' : Machine W}
    (hread : exec (f.readDir env.kernel (resumeOffset (listing c.pages)) p.count.toNat p.attributes)
      c.session.machine = (.ok (.ok bytes, f'), m')) (hbytes : bytes.length ≤ p.count.toNat) :
    ask env fid p c = ⟨({ c.session with machine := m' } : Session W).setFid fid (some (.file f')),
      c.pages ++ [(p, bytes)]⟩ := by
  obtain ⟨y, hsess, hpay, hexec⟩ := exec_handleReadDir_admitted p.tag hfid hadmitted hread hbytes
  have hcode : messageCode (y.response.result (p.type.code + 1) p.tag) = p.type.code + 1 :=
    y.response.messageCode_result _ _
  have hdata : pageData (y.response.result (p.type.code + 1) p.tag) = bytes :=
    pageData_result _ _ hpay (Nat.lt_of_le_of_lt hbytes p.count.toNat_lt)
  have hanswer : processMessage env p.buffer (p.message fid (resumeOffset (listing c.pages))) c.session =
      (.answer (y.response.result (p.type.code + 1) p.tag), y.session) := by
    simp only [processMessage_page, hexec, respond]
  rw [ask_answer hanswer, if_pos hcode, hdata, hsess]

variable {dir : Dir} {entries : List Dirent} {position : W → Nat}

theorem listing_append (pages : List (Page × List Byte)) (p : Page) (bytes : List Byte) :
    listing (pages ++ [(p, bytes)]) = listing pages ++ decodeEntries p.attributes bytes := by
  rw [listing, flatMap_append, flatMap_singleton]
  rfl

variable {n : Nat}

theorem resumeOffset_take (hn : n ≤ entries.length) :
    resumeOffset ((entries.take n).map Dirent.listed) = offsetAt entries n := by
  cases n with
  | zero => rfl
  | succ i =>
    have hi : i < entries.length := hn
    have hlast : (entries.take (i + 1)).getLast? = some entries[i] := by
      rw [take_succ_eq_append_getElem hi, getLast?_append, getLast?_singleton]
      rfl
    rw [resumeOffset, getLast?_map, hlast, offsetAt, getElem?_eq_getElem hi]
    rfl

/-- The pages that a client has got hold the entries from the first on, each page as many as
it can, and an empty page comes only after all of them. -/
structure Paged (env : Environment W) (fid : UInt32) (dir : Dir) (entries : List Dirent) (position : W → Nat)
    (s : Session W) (c : Client W) (n : Nat) : Prop where
  file : ∃ f, c.session.fids fid = some (.file f) ∧
    ReadsFrom env.kernel dir entries position f c.session.machine.world
  negotiated : c.session.negotiatedSize = s.negotiatedSize
  version : c.session.use9P2000W = s.use9P2000W
  inside : n ≤ entries.length
  listed : listing c.pages = (entries.take n).map Dirent.listed
  progress : c.pages.length ≤ n ∨ n = entries.length
  fits : ∀ page ∈ c.pages, page.2.length ≤ page.1.count.toNat
  complete : ∀ before p after, c.pages = before ++ (p, []) :: after →
    listing before = entries.map Dirent.listed

theorem Paged.admitted_iff (h : Paged env fid dir entries position s c n) :
    p.Admitted c.session ↔ p.Admitted s := by
  rw [Page.Admitted, Page.Admitted, EnsureFits, EnsureFits, h.negotiated, h.version]

theorem Paged.not_tooLong (h : Paged env fid dir entries position s c n)
    (hbig : BigEnough entries p c) : ¬TooLong entries p.attributes p.count.toNat n := by
  rintro ⟨entry, hentry, hlong⟩
  have hinside := h.inside
  have hlen : (listing c.pages).length = n := by
    rw [h.listed, length_map, length_take]
    omega
  have hle := hbig entry (by rw [hlen]; exact hentry)
  omega

theorem ask_paged (hk : env.kernel.Lists dir entries position)
    (h : Paged env fid dir entries position s c n) (hbig : BigEnough entries p c) :
    ∃ n', Paged env fid dir entries position s (ask env fid p c) n' ∧
      (ask env fid p c).pages.map Prod.fst = c.pages.map Prod.fst ++ if p.Admitted s then [p] else [] := by
  obtain ⟨f, hfid, hreads⟩ := h.file
  by_cases hadmitted : p.Admitted c.session
  · obtain ⟨bytes, f', m', n', hread, hpage⟩ := exec_readDir hk hreads h.inside (h.not_tooLong hbig)
    rw [← resumeOffset_take h.inside, ← h.listed] at hread
    rw [ask_admitted hfid hadmitted hread hpage.fits, if_pos (h.admitted_iff.mp hadmitted)]
    refine ⟨n + n', ⟨⟨f', ?_, hpage.file⟩, h.negotiated, h.version, hpage.inside, ?_, ?_, ?_, ?_⟩, ?_⟩
    · exact if_pos rfl
    · rw [listing_append, h.listed, hpage.decoded, ← map_append, take_add]
    · have hprogress := h.progress
      have hends := hpage.ends
      have hinside := hpage.inside
      rw [length_append, length_singleton]
      omega
    · intro page hmem
      rcases mem_append.mp hmem with hold | hnew
      · exact h.fits page hold
      · rw [mem_singleton.mp hnew]
        exact hpage.fits
    · intro before q after hpages
      rcases eq_nil_or_concat after with rfl | ⟨after', last, rfl⟩
      · obtain ⟨hbefore, hlast⟩ := append_inj' hpages rfl
        obtain ⟨-, rfl⟩ := Prod.mk.inj (head_eq_of_cons_eq hlast)
        rw [← hbefore, h.listed, hpage.ends hpage.count_of_empty, take_length]
      · rw [concat_eq_append, ← cons_append, ← append_assoc] at hpages
        exact h.complete before q after' (append_inj' hpages rfl).1
    · rw [map_append]
      rfl
  · rw [ask_refused hfid hadmitted, if_neg (fun hs => hadmitted (h.admitted_iff.mpr hs)), append_nil]
    exact ⟨n, h, rfl⟩

theorem runSteps_paged (hk : env.kernel.Lists dir entries position) {ps : List Page}
    (h : Paged env fid dir entries position s c n) (hps : Allowed (ask env fid) (BigEnough entries) ps c) :
    ∃ n', Paged env fid dir entries position s (runSteps (ask env fid) ps c) n' ∧
      (runSteps (ask env fid) ps c).pages.map Prod.fst =
        c.pages.map Prod.fst ++ ps.filter fun p => p.Admitted s := by
  induction ps generalizing c n with
  | nil => exact ⟨n, h, (append_nil _).symm⟩
  | cons p ps ih =>
    obtain ⟨n₁, hpaged, hpages⟩ := ask_paged hk h hps.1
    obtain ⟨n₂, hpaged', hpages'⟩ := ih hpaged hps.2
    refine ⟨n₂, hpaged', ?_⟩
    change (runSteps (ask env fid) ps (ask env fid p c)).pages.map Prod.fst = _
    rw [hpages', hpages, append_assoc, filter_cons]
    by_cases hadmitted : p.Admitted s
    · rw [if_pos hadmitted, if_pos (decide_eq_true hadmitted)]
      rfl
    · rw [if_neg hadmitted, if_neg (by simp [hadmitted])]
      rfl

/-- Whatever counts a client gives, as long as each is big enough for the next entry, the
pages hold the entries of the directory in their order and each of them once: all of them
after as many pages as there are entries, and before a page that is empty. A page is got for
every request that is admitted, and it is no longer than was asked for. -/
theorem directory_pages_complete (env : Environment W) (fid : UInt32) {dir : Dir} {entries : List Dirent}
    {position : W → Nat} (hk : env.kernel.Lists dir entries position) (s : Session W) {f : File}
    (hfid : s.fids fid = some (.file f)) (hreads : ReadsFrom env.kernel dir entries position f s.machine.world)
    (ps : List Page) (hps : Allowed (ask env fid) (BigEnough entries) ps ⟨s, []⟩) :
    let c := runSteps (ask env fid) ps ⟨s, []⟩
    c.pages.map Prod.fst = ps.filter (fun p => p.Admitted s) ∧
      listing c.pages <+: entries.map Dirent.listed ∧
      (entries.length ≤ c.pages.length → listing c.pages = entries.map Dirent.listed) ∧
      (∀ page ∈ c.pages, page.2.length ≤ page.1.count.toNat) ∧
      ∀ before p after, c.pages = before ++ (p, []) :: after → listing before = entries.map Dirent.listed := by
  have hstart : Paged env fid dir entries position s ⟨s, []⟩ 0 :=
    ⟨⟨f, hfid, hreads⟩, rfl, rfl, Nat.zero_le _, rfl, Or.inl (Nat.le_refl _), nofun, by simp⟩
  obtain ⟨n, hpaged, hpages⟩ := runSteps_paged hk hstart hps
  refine ⟨hpages, ?_, ?_, hpaged.fits, hpaged.complete⟩
  · rw [hpaged.listed]
    apply List.IsPrefix.map
    exact take_prefix n entries
  · intro hlength
    have hprogress := hpaged.progress
    have hinside := hpaged.inside
    have hn : n = entries.length := by omega
    rw [hpaged.listed, hn, take_length]

def smallDirectory : List Dirent := [⟨2, 1, 4, ⟨[dot], by decide⟩⟩, ⟨9, 2, 8, ⟨[97], by decide⟩⟩]

def smallKernel : Kernel Nat where
  euid id := (id.map Identity.uid).getD 0
  call _ c w :=
    match c with
    | .readdir _ => (.ok smallDirectory[w]?, if w < smallDirectory.length then w + 1 else w)
    | .seekdir _ offset => (.ok (), offset.toNat)
    | .rewinddir _ => (.ok (), 0)
    | .fdopendir _ => (.ok (⟨5⟩ : Dir), 0)
    | c => (.ok c.plainAnswer, w)

theorem lists_smallKernel : smallKernel.Lists ⟨5⟩ smallDirectory id where
  readdir _ _ := rfl
  advance _ _ := rfl
  seekdir _ _ i hi := by
    have hlen : smallDirectory.length = 2 := rfl
    have hcases : i = 0 ∨ i = 1 ∨ i = 2 := by omega
    rcases hcases with rfl | rfl | rfl
    · rfl
    · rfl
    · rfl
  rewinddir _ _ := rfl
  fstatat _ _ _ _ := rfl

def smallEnvironment : Environment Nat where
  kernel := smallKernel
  shares _ := some ⟨3⟩
  serverUid := 0
  userGroupId _ := some 100
  nobodyGroupId := none
  groupList _ gid := [gid]

def smallSession : Session Nat :=
  { Session.initial false 0 with negotiated := true, negotiatedSize := 8192, use9P2000W := true }.setFid 7
    (some (.file ⟨[], none, some ⟨4⟩, ⟨0, ⟨3⟩, ⟨1000, 100, [100]⟩⟩, ⟨2, 0, .directory⟩, 1⟩))

def smallPage (attributes : Bool) : Page :=
  ⟨attributes, if attributes then 125 else 25, 1, .initial staticBufferSize true, rfl, by decide⟩

theorem smallPage_bigEnough (attributes : Bool) (c : Client Nat) :
    BigEnough smallDirectory (smallPage attributes) c := by
  intro entry hentry
  have hnames : ∀ entry ∈ smallDirectory, entry.name.1.length = 1 := by decide
  rw [entrySize, hnames entry (mem_of_getElem? hentry)]
  cases attributes with
  | true => decide
  | false => decide

theorem small_directory_paged :
    listing (runSteps (ask smallEnvironment 7) [smallPage true, smallPage false] ⟨smallSession, []⟩).pages =
      smallDirectory.map Dirent.listed := by
  have hreads : ReadsFrom smallKernel ⟨5⟩ smallDirectory id
      ⟨[], none, some ⟨4⟩, ⟨0, ⟨3⟩, ⟨1000, 100, [100]⟩⟩, ⟨2, 0, .directory⟩, 1⟩ smallSession.machine.world :=
    ⟨⟨4⟩, rfl, fun _ _ => ⟨rfl, rfl⟩⟩
  have hps : Allowed (ask smallEnvironment 7) (BigEnough smallDirectory) [smallPage true, smallPage false]
      ⟨smallSession, []⟩ := by
    apply allowed_of_forall
    intro p hp c
    obtain rfl | rfl : p = smallPage true ∨ p = smallPage false := by
      rw [mem_cons, mem_singleton] at hp
      exact hp
    · exact smallPage_bigEnough true c
    · exact smallPage_bigEnough false c
  obtain ⟨hpages, -, hall, -⟩ :=
    directory_pages_complete smallEnvironment 7 lists_smallKernel smallSession rfl hreads
      [smallPage true, smallPage false] hps
  apply hall
  have hlength := congrArg List.length hpages
  rw [length_map] at hlength
  rw [hlength]
  decide

end Client

end WslPlus.Plan9
