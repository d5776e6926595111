import WslPlus.HandleIo.ChunkReader
import WslPlus.HandleIo.WriteHandle
import WslPlus.Lib.Transition

/-!
# Demultiplexing the output of a container

`DockerIORelayHandle` reads frames with a header and writes their payloads to the standard
output or the standard error. It turns to reading again whenever nothing is left in its own
buffer, also while a writer still keeps bytes that a write did not take. If the end of the
input is read then, these bytes are dropped.
-/

namespace WslPlus.HandleIo

open Function List

/-- The reader is a plain one or one for chunks. -/
inductive Format where
  | raw
  | httpChunked

inductive Fd where
  | stdout
  | stderr
  deriving DecidableEq

def Fd.byte : Fd → UInt8
  | .stdout => 1
  | .stderr => 2

/-- With `input`, the reads to come, and `thrown`, whether a call has thrown. -/
structure DockerIORelayHandle where
  format : Format
  state : IOHandleStatus := .standby
  readState : IOHandleStatus := .standby
  parser : HTTPChunkBasedReadHandle := {}
  write : Fd → WriteHandle := fun _ => {}
  pendingBuffer : Bytes := []
  activeHandle : Option Fd := none
  remainingBytes : Nat := 0
  input : List Bytes
  thrown : Bool := false

namespace DockerIORelayHandle

variable {r : DockerIORelayHandle} {fd : Fd}

def sizeofMultiplexedHeader : Nat := 8

def ntohl (bytes : Bytes) : Nat := bytes.foldl (fun n b => 256 * n + b.toNat) 0

def fdOfByte (b : UInt8) : Option Fd :=
  if b = 1 then some .stdout else if b = 2 then some .stderr else none

def processNextHeader (r : DockerIORelayHandle) : DockerIORelayHandle :=
  if r.pendingBuffer.length < sizeofMultiplexedHeader then r
  else
    let r := { r with remainingBytes := ntohl ((r.pendingBuffer.drop 4).take 4) }
    match fdOfByte (r.pendingBuffer.headD 0) with
    | some fd => { r with
        activeHandle := some fd
        pendingBuffer := r.pendingBuffer.drop sizeofMultiplexedHeader }
    | none => { r with thrown := true }

def onRead (r : DockerIORelayHandle) (bytes : Bytes) : DockerIORelayHandle :=
  if r.thrown then r
  else
    let r := { r with pendingBuffer := r.pendingBuffer ++ bytes }
    if r.activeHandle = none then processNextHeader r else r

/-- What one read leads to: the reader behind it, the calls of `OnRead`, and whether the
reader itself has thrown. -/
def readPieces (r : DockerIORelayHandle) (bytes : Bytes) : HTTPChunkBasedReadHandle × List Bytes × Bool :=
  match r.format with
  | .raw => (r.parser, [bytes], false)
  | .httpChunked =>
    match r.parser.onRead bytes with
    | .ok parser => (parser, parser.chunks.drop r.parser.chunks.length, false)
    | .error (_, parser) => (parser, parser.chunks.drop r.parser.chunks.length, true)

def completeRead (r : DockerIORelayHandle) : DockerIORelayHandle :=
  let bytes := r.input.headD []
  let (parser, pieces, threw) := r.readPieces bytes
  let r := pieces.foldl onRead { r with parser := parser, input := r.input.tail }
  { r with
    thrown := r.thrown || threw
    readState := if bytes = [] then .completed else .standby }

def finishFrame (r : DockerIORelayHandle) (fd : Fd) : DockerIORelayHandle :=
  if ((r.write fd).state = .completed ∨ (r.write fd).state = .idle) ∧ r.remainingBytes = 0 then
    processNextHeader { r with activeHandle := none }
  else r

def bytesToWrite (r : DockerIORelayHandle) : Nat :=
  min (r.remainingBytes % 2 ^ 32) (r.pendingBuffer.length % 2 ^ 32)

def startWrite (r : DockerIORelayHandle) (fd : Fd) (now : Bool) (count : Nat) : DockerIORelayHandle :=
  { r with
    write := update r.write fd
      (((r.write fd).push (r.pendingBuffer.take r.bytesToWrite)).schedule now count)
    remainingBytes := r.remainingBytes - r.bytesToWrite
    pendingBuffer := r.pendingBuffer.drop r.bytesToWrite }

def flush (r : DockerIORelayHandle) (fd : Fd) (now : Bool) (count : Nat) : DockerIORelayHandle :=
  let r := r.startWrite fd now count
  if (r.write fd).state = .pending then { r with state := .pending } else r.finishFrame fd

/-- The I/O that is started is done at once (`now`) or later; `count` is for a write. -/
def schedule (r : DockerIORelayHandle) (now : Bool) (count : Nat) : DockerIORelayHandle :=
  match r.activeHandle, r.pendingBuffer with
  | some fd, _ :: _ => r.flush fd now count
  | _, _ =>
    if r.readState = .completed then { r with state := .completed }
    else if now then r.completeRead
    else { r with readState := .pending, state := .pending }

def collectWrite (r : DockerIORelayHandle) (fd : Fd) (count : Nat) : DockerIORelayHandle :=
  let r := { r with write := update r.write fd ((r.write fd).collect count) }.finishFrame fd
  { r with state := if r.readState = .completed then .completed else .standby }

def collectRead (r : DockerIORelayHandle) : DockerIORelayHandle :=
  { r.completeRead with state := .standby }

def collect (r : DockerIORelayHandle) (count : Nat) : DockerIORelayHandle :=
  match r.activeHandle with
  | some fd => if (r.write fd).state = .pending then r.collectWrite fd count else r.collectRead
  | none => r.collectRead

/-- The calls of the loop that waits for the handles. -/
inductive Event where
  | schedule (now : Bool) (count : Nat)
  | collect (count : Nat)

def step : Event → DockerIORelayHandle → DockerIORelayHandle
  | .schedule now count, r => if ¬ r.thrown ∧ r.state = .standby then r.schedule now count else r
  | .collect count, r => if ¬ r.thrown ∧ r.state = .pending then r.collect count else r

structure Frame where
  fd : Fd
  payload : Bytes
  length_lt : payload.length < 2 ^ 32

def htonl (n : Nat) : Bytes :=
  [.ofNat (n / 2 ^ 24), .ofNat (n / 2 ^ 16), .ofNat (n / 2 ^ 8), .ofNat n]

def Frame.header (f : Frame) : Bytes := [f.fd.byte, 0, 0, 0] ++ htonl f.payload.length

def Frame.encode (f : Frame) : Bytes := f.header ++ f.payload

def encodeAll (frames : List Frame) : Bytes := frames.flatMap Frame.encode

def payloadsOf (fd : Fd) (frames : List Frame) : Bytes :=
  (frames.filter (·.fd = fd)).flatMap Frame.payload

def Carries : Format → List Bytes → List Frame → Prop
  | .raw, reads, frames => reads.flatten = encodeAll frames
  | .httpChunked, reads, frames => ∃ body : Body,
      reads.flatten = body.encode ∧ (body.chunks.map Chunk.data).flatten = encodeAll frames

theorem ntohl_htonl {n : Nat} (h : n < 2 ^ 32) : ntohl (htonl n) = n := by
  simp only [ntohl, htonl, foldl_cons, foldl_nil, UInt8.toNat_ofNat']
  omega

theorem fdOfByte_byte (fd : Fd) : fdOfByte fd.byte = some fd := by cases fd <;> rfl

theorem length_header (f : Frame) : f.header.length = sizeofMultiplexedHeader := rfl

theorem encodeAll_cons (f : Frame) (rest : List Frame) :
    encodeAll (f :: rest) = f.header ++ (f.payload ++ encodeAll rest) := by
  rw [encodeAll, flatMap_cons, Frame.encode, append_assoc]
  rfl

theorem payloadsOf_concat (fd : Fd) (done : List Frame) (f : Frame) :
    payloadsOf fd (done ++ [f]) = payloadsOf fd done ++ if fd = f.fd then f.payload else [] := by
  unfold payloadsOf
  rw [filter_append, flatMap_append]
  congr 1
  by_cases hfd : f.fd = fd
  · simp [hfd]
  · have hne : ¬ fd = f.fd := fun heq => hfd heq.symm
    simp [hfd, hne]

/-- How far the frames have come, when `future` is still to be read: all of the payload of
the frames that are done was pushed, and a front part of the payload of the current one. -/
inductive Parsed (frames : List Frame) (r : DockerIORelayHandle) (future : Bytes) : Prop where
  | between (done rest : List Frame) (hframes : frames = done ++ rest) (hactive : r.activeHandle = none)
      (hshort : r.pendingBuffer.length < sizeofMultiplexedHeader)
      (hbytes : r.pendingBuffer ++ future = encodeAll rest)
      (hpushed : ∀ fd, (r.write fd).pushed = payloadsOf fd done)
  | inside (done rest : List Frame) (f : Frame) (front toGo : Bytes) (hframes : frames = done ++ f :: rest)
      (hactive : r.activeHandle = some f.fd) (hpayload : f.payload = front ++ toGo)
      (hremaining : r.remainingBytes = toGo.length)
      (hbytes : r.pendingBuffer ++ future = toGo ++ encodeAll rest)
      (hpushed : ∀ fd, (r.write fd).pushed = payloadsOf fd done ++ if fd = f.fd then front else [])

variable {frames done rest : List Frame} {future : Bytes}

theorem processNextHeader_short (hshort : r.pendingBuffer.length < sizeofMultiplexedHeader) :
    r.processNextHeader = r := if_pos hshort

theorem processNextHeader_frame (hlong : ¬ r.pendingBuffer.length < sizeofMultiplexedHeader)
    (hbytes : r.pendingBuffer ++ future = encodeAll rest) :
    ∃ f later, rest = f :: later ∧
      r.processNextHeader = { r with
        remainingBytes := f.payload.length
        activeHandle := some f.fd
        pendingBuffer := r.pendingBuffer.drop sizeofMultiplexedHeader } ∧
      r.pendingBuffer.drop sizeofMultiplexedHeader ++ future = f.payload ++ encodeAll later := by
  cases rest with
  | nil =>
    have hnil := (append_eq_nil_iff.mp hbytes).1
    rw [hnil] at hlong
    exact absurd (by decide) hlong
  | cons f later =>
    rw [encodeAll_cons] at hbytes
    have hheader : r.pendingBuffer = f.header ++ r.pendingBuffer.drop sizeofMultiplexedHeader := by
      have htake := congrArg (List.take sizeofMultiplexedHeader) hbytes
      rw [take_append_of_le_length (by omega), take_left' (length_header f)] at htake
      conv_lhs => rw [← take_append_drop sizeofMultiplexedHeader r.pendingBuffer, htake]
    refine ⟨f, later, rfl, ?_, ?_⟩
    · have hfd : r.pendingBuffer.headD 0 = f.fd.byte := by rw [hheader]; rfl
      have hlen : (r.pendingBuffer.drop 4).take 4 = htonl f.payload.length := by
        rw [hheader]
        rfl
      simp only [processNextHeader, if_neg hlong, hlen, ntohl_htonl f.length_lt, hfd, fdOfByte_byte]
    · rw [hheader, append_assoc] at hbytes
      exact append_cancel_left hbytes

theorem Parsed.processNextHeader (hframes : frames = done ++ rest) (hactive : r.activeHandle = none)
    (hbytes : r.pendingBuffer ++ future = encodeAll rest)
    (hpush : ∀ fd, (r.write fd).pushed = payloadsOf fd done) : Parsed frames r.processNextHeader future := by
  by_cases hshort : r.pendingBuffer.length < sizeofMultiplexedHeader
  · rw [processNextHeader_short hshort]
    exact .between done rest hframes hactive hshort hbytes hpush
  · obtain ⟨f, later, rfl, hnext, hbytes'⟩ := processNextHeader_frame hshort hbytes
    rw [hnext]
    refine .inside done later f [] f.payload hframes rfl rfl rfl hbytes' ?_
    intro fd
    simpa using hpush fd

/-- Only what belongs to the parsing of frames differs. -/
structure SameIo (r r' : DockerIORelayHandle) : Prop where
  format : r'.format = r.format
  state : r'.state = r.state
  readState : r'.readState = r.readState
  parser : r'.parser = r.parser
  write : r'.write = r.write
  input : r'.input = r.input

namespace SameIo

theorem refl (r : DockerIORelayHandle) : SameIo r r := ⟨rfl, rfl, rfl, rfl, rfl, rfl⟩

theorem trans {r₁ r₂ r₃ : DockerIORelayHandle} (h₁ : SameIo r₁ r₂) (h₂ : SameIo r₂ r₃) : SameIo r₁ r₃ :=
  ⟨h₂.format.trans h₁.format, h₂.state.trans h₁.state, h₂.readState.trans h₁.readState,
    h₂.parser.trans h₁.parser, h₂.write.trans h₁.write, h₂.input.trans h₁.input⟩

theorem processNextHeader (r : DockerIORelayHandle) : SameIo r r.processNextHeader := by
  unfold DockerIORelayHandle.processNextHeader
  split
  · exact refl r
  · simp only
    split <;> exact ⟨rfl, rfl, rfl, rfl, rfl, rfl⟩

theorem onRead (r : DockerIORelayHandle) (bytes : Bytes) : SameIo r (r.onRead bytes) := by
  unfold DockerIORelayHandle.onRead
  split
  · exact refl r
  · have hinsert : SameIo r { r with pendingBuffer := r.pendingBuffer ++ bytes } :=
      ⟨rfl, rfl, rfl, rfl, rfl, rfl⟩
    simp only
    split
    · exact hinsert.trans (processNextHeader _)
    · exact hinsert

theorem foldl_onRead (pieces : List Bytes) (r : DockerIORelayHandle) :
    SameIo r (pieces.foldl DockerIORelayHandle.onRead r) := by
  induction pieces generalizing r with
  | nil => exact refl r
  | cons piece pieces ih => exact (onRead r piece).trans (ih (r.onRead piece))

theorem finishFrame (r : DockerIORelayHandle) (fd : Fd) : SameIo r (r.finishFrame fd) := by
  unfold DockerIORelayHandle.finishFrame
  split
  · have hactive : SameIo r { r with activeHandle := none } := ⟨rfl, rfl, rfl, rfl, rfl, rfl⟩
    exact hactive.trans (processNextHeader _)
  · exact refl r

end SameIo

theorem processNextHeader_thrown (hbytes : r.pendingBuffer ++ future = encodeAll rest) :
    r.processNextHeader.thrown = r.thrown := by
  by_cases hshort : r.pendingBuffer.length < sizeofMultiplexedHeader
  · rw [processNextHeader_short hshort]
  · obtain ⟨f, later, -, hnext, -⟩ := processNextHeader_frame hshort hbytes
    rw [hnext]

theorem Parsed.onRead {bytes : Bytes} (hthrown : r.thrown = false)
    (hparsed : Parsed frames r (bytes ++ future)) :
    Parsed frames (r.onRead bytes) future ∧ (r.onRead bytes).thrown = false := by
  cases hparsed with
  | between done rest hframes hactive hshort hbytes hpush =>
    rw [← append_assoc] at hbytes
    have heq : r.onRead bytes =
        { r with pendingBuffer := r.pendingBuffer ++ bytes }.processNextHeader := by
      simp [DockerIORelayHandle.onRead, hthrown, hactive]
    rw [heq]
    constructor
    · exact Parsed.processNextHeader hframes hactive hbytes hpush
    · rw [processNextHeader_thrown hbytes]
      exact hthrown
  | inside done rest f front toGo hframes hactive hpay hrem hbytes hpush =>
    rw [← append_assoc] at hbytes
    have heq : r.onRead bytes = { r with pendingBuffer := r.pendingBuffer ++ bytes } := by
      simp [DockerIORelayHandle.onRead, hthrown, hactive]
    rw [heq]
    exact ⟨.inside done rest f front toGo hframes hactive hpay hrem hbytes hpush, hthrown⟩

theorem Parsed.foldl_onRead {pieces : List Bytes} (hthrown : r.thrown = false)
    (hparsed : Parsed frames r (pieces.flatten ++ future)) :
    Parsed frames (pieces.foldl DockerIORelayHandle.onRead r) future ∧
      (pieces.foldl DockerIORelayHandle.onRead r).thrown = false := by
  induction pieces generalizing r with
  | nil => exact ⟨hparsed, hthrown⟩
  | cons piece pieces ih =>
    rw [flatten_cons, append_assoc] at hparsed
    obtain ⟨hnext, hnext'⟩ := hparsed.onRead hthrown
    exact ih hnext' hnext

theorem Parsed.finishFrame (hparsed : Parsed frames r future) (hactive : r.activeHandle = some fd) :
    Parsed frames (r.finishFrame fd) future ∧ (r.finishFrame fd).thrown = r.thrown := by
  unfold DockerIORelayHandle.finishFrame
  split
  · rename_i hrest
    cases hparsed with
    | between _ _ _ hnone _ _ _ =>
      rw [hnone] at hactive
      cases hactive
    | inside done rest f front toGo hframes _ hpay hrem hbytes hpush =>
      have htoGo : toGo = [] := length_eq_zero_iff.mp (hrem.symm.trans hrest.2)
      subst htoGo
      rw [append_nil] at hpay
      rw [nil_append] at hbytes
      have hframes' : frames = done ++ [f] ++ rest := by
        rw [hframes, append_assoc, singleton_append]
      have hpush' : ∀ fd, (r.write fd).pushed = payloadsOf fd (done ++ [f]) := by
        intro fd
        rw [payloadsOf_concat, hpay]
        exact hpush fd
      exact ⟨Parsed.processNextHeader hframes' rfl hbytes hpush',
        processNextHeader_thrown (r := { r with activeHandle := none }) hbytes⟩
  · exact ⟨hparsed, rfl⟩

variable {r' : DockerIORelayHandle}

section

variable (hparsed : Parsed frames r future)
include hparsed

theorem Parsed.congr
    (hactive : r'.activeHandle = r.activeHandle) (hbuf : r'.pendingBuffer = r.pendingBuffer)
    (hrem : r'.remainingBytes = r.remainingBytes)
    (hpush : ∀ fd, (r'.write fd).pushed = (r.write fd).pushed) : Parsed frames r' future := by
  cases hparsed with
  | between done rest h₁ h₂ h₃ h₄ h₅ =>
    rw [← hbuf] at h₃ h₄
    exact .between done rest h₁ (hactive.trans h₂) h₃ h₄ fun fd => (hpush fd).trans (h₅ fd)
  | inside done rest f front toGo h₁ h₂ h₃ h₄ h₅ h₆ =>
    rw [← hbuf] at h₅
    exact .inside done rest f front toGo h₁ (hactive.trans h₂) h₃ (hrem.trans h₄) h₅
      fun fd => (hpush fd).trans (h₆ fd)

section

variable (hactive : r.activeHandle = some fd)
include hactive

theorem Parsed.startWrite
    (now : Bool) (count : Nat) : Parsed frames (r.startWrite fd now count) future := by
  cases hparsed with
  | between _ _ _ hnone _ _ _ =>
    rw [hnone] at hactive
    cases hactive
  | inside done rest f front toGo hframes hactive' hpay hrem hbytes hpush =>
    rw [hactive'] at hactive
    cases hactive
    have hn : r.bytesToWrite ≤ toGo.length ∧ r.bytesToWrite ≤ r.pendingBuffer.length := by
      rw [← hrem, bytesToWrite]
      omega
    have htake : r.pendingBuffer.take r.bytesToWrite = toGo.take r.bytesToWrite := by
      have htake := congrArg (List.take r.bytesToWrite) hbytes
      rwa [take_append_of_le_length hn.2, take_append_of_le_length hn.1] at htake
    have hdrop : r.pendingBuffer.drop r.bytesToWrite ++ future =
        toGo.drop r.bytesToWrite ++ encodeAll rest := by
      have hdrop := congrArg (List.drop r.bytesToWrite) hbytes
      rwa [drop_append_of_le_length hn.2, drop_append_of_le_length hn.1] at hdrop
    refine .inside done rest f (front ++ toGo.take r.bytesToWrite) (toGo.drop r.bytesToWrite) hframes
      hactive' ?_ ?_ hdrop ?_
    · rw [hpay, append_assoc, take_append_drop]
    · simp only [DockerIORelayHandle.startWrite, hrem, List.length_drop]
    · intro fd
      have hold := hpush fd
      unfold DockerIORelayHandle.startWrite
      by_cases hfd : fd = f.fd
      · subst hfd
        simp only [if_true] at hold ⊢
        rw [update_self, htake, WriteHandle.pushed_schedule, WriteHandle.pushed_push, hold,
          append_assoc]
      · simp only [if_neg hfd] at hold ⊢
        rw [update_of_ne hfd]
        exact hold

theorem Parsed.flush
    (now : Bool) (count : Nat) :
    Parsed frames (r.flush fd now count) future ∧ (r.flush fd now count).thrown = r.thrown := by
  have hstart := hparsed.startWrite hactive now count
  simp only [DockerIORelayHandle.flush]
  split
  · exact ⟨hstart.congr rfl rfl rfl fun _ => rfl, rfl⟩
  · exact hstart.finishFrame hactive

theorem Parsed.collectWrite
    (count : Nat) :
    Parsed frames (r.collectWrite fd count) future ∧ (r.collectWrite fd count).thrown = r.thrown := by
  have hcollect : Parsed frames
      { r with write := update r.write fd ((r.write fd).collect count) } future := by
    refine hparsed.congr rfl rfl rfl ?_
    intro fd'
    by_cases hfd : fd' = fd
    · subst hfd
      simp only [update_self, WriteHandle.pushed_collect]
    · simp only [update_of_ne hfd]
  obtain ⟨hfinish, hthrown⟩ := hcollect.finishFrame hactive
  exact ⟨hfinish.congr rfl rfl rfl fun _ => rfl, hthrown⟩

end

end

def Source (r : DockerIORelayHandle) (future : Bytes) : Prop :=
  match r.format with
  | .raw => future = r.input.flatten
  | .httpChunked => ∃ parser later,
      r.input.foldlM HTTPChunkBasedReadHandle.onRead r.parser = .ok parser ∧
      parser.chunks = r.parser.chunks ++ later ∧ future = later.flatten

theorem Source.congr (hsrc : Source r future) (hformat : r'.format = r.format)
    (hinput : r'.input = r.input) (hparser : r'.parser = r.parser) : Source r' future := by
  unfold Source at hsrc ⊢
  rw [hformat, hinput, hparser]
  exact hsrc

theorem Source.next {x : Bytes} {later : List Bytes} (hsrc : Source r future)
    (hinput : r.input = x :: later) :
    ∃ parser pieces future', r.readPieces x = (parser, pieces, false) ∧
      future = pieces.flatten ++ future' ∧
      Source { r with parser := parser, input := later } future' := by
  unfold Source at hsrc
  unfold readPieces
  split at hsrc
  · rename_i hformat
    rw [hinput] at hsrc
    refine ⟨r.parser, [x], later.flatten, ?_, by simpa using hsrc, by simp [Source, hformat]⟩
    rfl
  · rename_i hformat
    obtain ⟨last, chunks, hfold, hchunks, rfl⟩ := hsrc
    rw [hinput, foldlM_cons] at hfold
    obtain ⟨parser, hread, hrest⟩ := HTTPChunkBasedReadHandle.ok_of_bind hfold
    obtain ⟨now, hnow⟩ := HTTPChunkBasedReadHandle.onRead_chunks hread
    obtain ⟨then', hthen⟩ := HTTPChunkBasedReadHandle.foldlM_chunks
      HTTPChunkBasedReadHandle.onRead_chunks hrest
    refine ⟨parser, now, then'.flatten, ?_, ?_, ?_⟩
    · simp only [hread, ← hnow, drop_left]
    · have hsplit : chunks = now ++ then' := by
        rw [← hthen, ← hnow, append_assoc] at hchunks
        exact (append_cancel_left hchunks).symm
      rw [hsplit, flatten_append]
    · simp only [Source, hformat]
      exact ⟨last, then', hrest, hthen.symm, rfl⟩

theorem Source.nil (hsrc : Source r future) (hinput : r.input = []) : future = [] := by
  unfold Source at hsrc
  rw [hinput] at hsrc
  split at hsrc
  · exact hsrc
  · obtain ⟨parser, later, hfold, hchunks, rfl⟩ := hsrc
    cases hfold
    rw [self_eq_append_right.mp hchunks]
    rfl

theorem readPieces_nil (r : DockerIORelayHandle) : ∃ pieces threw,
    r.readPieces [] = (r.parser, pieces, threw) ∧ ∀ piece ∈ pieces, piece = [] := by
  unfold readPieces
  split
  · exact ⟨[[]], false, rfl, by simp⟩
  · by_cases hopen : r.parser.pendingChunkSize ≠ 0 ∨ r.parser.expectHeader = true
    · rw [HTTPChunkBasedReadHandle.onRead_nil_error hopen]
      exact ⟨[], true, by simp, by simp⟩
    · obtain ⟨hsize, hexpect⟩ := not_or.mp hopen
      rw [HTTPChunkBasedReadHandle.onRead_nil_ok (not_not.mp hsize) (by simpa using hexpect)]
      exact ⟨[], false, by simp, by simp⟩

theorem Parsed.onRead_nil (hparsed : Parsed frames r future) : r.onRead [] = r := by
  unfold DockerIORelayHandle.onRead
  simp only [append_nil]
  split
  · rfl
  · cases hparsed with
    | between _ _ _ hactive hshort _ _ => rw [if_pos hactive, processNextHeader_short hshort]
    | inside _ _ _ _ _ _ hactive _ _ _ _ => rw [if_neg (by simp [hactive])]

theorem Parsed.foldl_onRead_nil {pieces : List Bytes} (hparsed : Parsed frames r future)
    (hpieces : ∀ piece ∈ pieces, piece = []) : pieces.foldl DockerIORelayHandle.onRead r = r := by
  induction pieces with
  | nil => rfl
  | cons piece pieces ih =>
    rw [foldl_cons, hpieces piece mem_cons_self, hparsed.onRead_nil]
    exact ih fun piece hmem => hpieces piece (mem_cons_of_mem _ hmem)

def Ahead (frames : List Frame) (r : DockerIORelayHandle) : Prop :=
  ∃ future, Source r future ∧ Parsed frames r future

theorem completeRead_next {x : Bytes} {later : List Bytes} (hahead : Ahead frames r)
    (hthrown : r.thrown = false) (hinput : r.input = x :: later) (hx : x ≠ []) :
    Ahead frames r.completeRead ∧ r.completeRead.thrown = false ∧ r.completeRead.readState = .standby ∧
      r.completeRead.input = later ∧ r.completeRead.write = r.write ∧ r.completeRead.state = r.state := by
  obtain ⟨future, hsrc, hparsed⟩ := hahead
  obtain ⟨parser, pieces, future', hpieces, rfl, hsrc'⟩ := hsrc.next hinput
  have hstart : Parsed frames { r with parser := parser, input := later } (pieces.flatten ++ future') :=
    hparsed.congr rfl rfl rfl fun _ => rfl
  obtain ⟨hparsed', hthrown'⟩ :=
    Parsed.foldl_onRead (r := { r with parser := parser, input := later }) hthrown hstart
  have hsame := SameIo.foldl_onRead pieces { r with parser := parser, input := later }
  simp only [completeRead, hinput, headD_cons, tail_cons, hpieces, if_neg hx, Bool.or_false]
  refine ⟨⟨future', ?_, ?_⟩, hthrown', trivial, hsame.input, hsame.write, hsame.state⟩
  · exact hsrc'.congr hsame.format hsame.input hsame.parser
  · exact hparsed'.congr rfl rfl rfl fun _ => rfl

theorem completeRead_end (hahead : Ahead frames r) (hinput : r.input = []) :
    ∃ threw, r.completeRead = { r with thrown := r.thrown || threw, readState := .completed } := by
  obtain ⟨future, hsrc, hparsed⟩ := hahead
  obtain ⟨pieces, threw, hpieces, hnil⟩ := readPieces_nil r
  have hstart : Parsed frames { r with input := [] } future := hparsed.congr rfl rfl rfl fun _ => rfl
  refine ⟨threw, ?_⟩
  simp only [completeRead, hinput, headD_nil, tail_nil, hpieces, if_true]
  rw [hstart.foldl_onRead_nil hnil]

def Flushing (r : DockerIORelayHandle) : Prop := r.activeHandle ≠ none ∧ r.pendingBuffer ≠ []

inductive Phase (r : DockerIORelayHandle) : Prop where
  | standby (hstate : r.state = .standby) (hread : r.readState = .standby)
      (hwrite : ∀ fd, (r.write fd).state ≠ .pending)
  | reading (hstate : r.state = .pending) (hread : r.readState = .pending)
      (hwrite : ∀ fd, (r.write fd).state ≠ .pending) (hflush : ¬ Flushing r)
  | writing (fd : Fd) (hstate : r.state = .pending) (hread : r.readState = .standby)
      (hactive : r.activeHandle = some fd) (hpending : (r.write fd).state = .pending)
      (hwrite : ∀ fd', fd' ≠ fd → (r.write fd').state ≠ .pending)
  | drained (hstate : r.state = .standby ∨ r.state = .completed) (hread : r.readState = .completed)
      (hwrite : ∀ fd, (r.write fd).state ≠ .pending) (hflush : ¬ Flushing r) (hinput : r.input = [])

structure Inv (frames : List Frame) (r : DockerIORelayHandle) : Prop where
  ahead : Ahead frames r
  reads : ∀ x ∈ r.input, x ≠ []
  writers : ∀ fd, (r.write fd).Reusable
  thrown : r.thrown = false
  phase : Phase r

variable {now : Bool} {count : Nat}

theorem schedule_flushing (hactive : r.activeHandle = some fd)
    (hbuf : r.pendingBuffer ≠ []) : r.schedule now count = r.flush fd now count := by
  obtain ⟨b, rest, hcons⟩ := exists_cons_of_ne_nil hbuf
  simp only [schedule, hactive, hcons]

theorem schedule_not_flushing (hflush : ¬ Flushing r) :
    r.schedule now count =
      if r.readState = .completed then { r with state := .completed }
      else if now then r.completeRead
      else { r with readState := .pending, state := .pending } := by
  unfold schedule
  split
  · rename_i hactive hcons
    exact absurd ⟨by simp [hactive], by simp [hcons]⟩ hflush
  · rfl

theorem Ahead.congr (hahead : Ahead frames r) (hformat : r'.format = r.format)
    (hinput : r'.input = r.input) (hparser : r'.parser = r.parser) (hactive : r'.activeHandle = r.activeHandle)
    (hbuf : r'.pendingBuffer = r.pendingBuffer) (hrem : r'.remainingBytes = r.remainingBytes)
    (hwrite : r'.write = r.write) : Ahead frames r' := by
  obtain ⟨future, hsrc, hparsed⟩ := hahead
  exact ⟨future, hsrc.congr hformat hinput hparser,
    hparsed.congr hactive hbuf hrem fun fd => by rw [hwrite]⟩

theorem completeRead_same (r : DockerIORelayHandle) :
    r.completeRead.write = r.write ∧ r.completeRead.state = r.state := by
  have hsame := SameIo.foldl_onRead (r.readPieces (r.input.headD [])).2.1
    { r with parser := (r.readPieces (r.input.headD [])).1, input := r.input.tail }
  exact ⟨hsame.write, hsame.state⟩

theorem collectRead_of_standby (hstate : r.state = .standby) : r.collectRead = r.completeRead := by
  have hsame := (completeRead_same r).2.trans hstate
  unfold collectRead
  rw [← hsame]

theorem Inv.collectRead (hinv : Inv frames r) (hwrite : ∀ fd, (r.write fd).state ≠ .pending)
    (hflush : ¬ Flushing r) : Inv frames r.collectRead ∨ r.collectRead.thrown = true := by
  unfold DockerIORelayHandle.collectRead
  cases hinput : r.input with
  | nil =>
    obtain ⟨threw, hend⟩ := completeRead_end hinv.ahead hinput
    cases threw with
    | true => exact .inr (by simp [hend])
    | false =>
      left
      rw [hend]
      refine ⟨hinv.ahead.congr rfl rfl rfl rfl rfl rfl rfl, hinv.reads, hinv.writers, ?_, ?_⟩
      · simpa using hinv.thrown
      · exact .drained (.inl rfl) rfl hwrite hflush hinput
  | cons x later =>
    have hx : x ≠ [] := hinv.reads x (by simp [hinput])
    obtain ⟨hahead, hthrown, hread, hinput', hwrite', -⟩ :=
      completeRead_next hinv.ahead hinv.thrown hinput hx
    left
    refine ⟨hahead.congr rfl rfl rfl rfl rfl rfl rfl, ?_, ?_, hthrown, ?_⟩
    · intro y hy
      exact hinv.reads y (by simp [hinput, show y ∈ later from hinput' ▸ hy])
    · intro fd
      exact hwrite' ▸ hinv.writers fd
    · exact .standby rfl hread (by rw [hwrite']; exact hwrite)

theorem startWrite_self (now : Bool) (count : Nat) : (r.startWrite fd now count).write fd =
    ((r.write fd).push (r.pendingBuffer.take r.bytesToWrite)).schedule now count :=
  update_self ..

theorem startWrite_of_ne {fd' : Fd} (hfd : fd' ≠ fd) (now : Bool) (count : Nat) :
    (r.startWrite fd now count).write fd' = r.write fd' := update_of_ne hfd ..

theorem Inv.flush (hinv : Inv frames r) (hstate : r.state = .standby) (hread : r.readState = .standby)
    (hwrite : ∀ fd, (r.write fd).state ≠ .pending) (hactive : r.activeHandle = some fd) (now : Bool)
    (count : Nat) : Inv frames (r.flush fd now count) := by
  obtain ⟨future, hsrc, hparsed⟩ := hinv.ahead
  obtain ⟨hparsed', hthrown⟩ := hparsed.flush hactive now count
  have hwriters : ∀ fd', ((r.startWrite fd now count).write fd').Reusable := by
    intro fd'
    by_cases hfd : fd' = fd
    · subst hfd
      rw [startWrite_self]
      exact (hinv.writers fd').schedule_push (hwrite fd') _ now count
    · rw [startWrite_of_ne hfd]
      exact hinv.writers fd'
  have hothers : ∀ fd', fd' ≠ fd → ((r.startWrite fd now count).write fd').state ≠ .pending := by
    intro fd' hfd
    rw [startWrite_of_ne hfd]
    exact hwrite fd'
  by_cases hpend : ((r.startWrite fd now count).write fd).state = .pending
  · have heq : r.flush fd now count = { r.startWrite fd now count with state := .pending } := if_pos hpend
    rw [heq] at hparsed' ⊢
    exact ⟨⟨future, hsrc.congr rfl rfl rfl, hparsed'⟩, hinv.reads, hwriters, hinv.thrown,
      .writing fd rfl hread hactive hpend hothers⟩
  · have heq : r.flush fd now count = (r.startWrite fd now count).finishFrame fd := if_neg hpend
    have hsame := SameIo.finishFrame (r.startWrite fd now count) fd
    rw [heq] at hparsed' hthrown ⊢
    refine ⟨⟨future, hsrc.congr hsame.format hsame.input hsame.parser, hparsed'⟩, ?_, ?_, ?_, ?_⟩
    · rw [hsame.input]
      exact hinv.reads
    · rw [hsame.write]
      exact hwriters
    · exact hthrown.trans hinv.thrown
    · refine .standby (hsame.state.trans hstate) (hsame.readState.trans hread) ?_
      rw [hsame.write]
      intro fd'
      by_cases hfd : fd' = fd
      · rw [hfd]
        exact hpend
      · exact hothers fd' hfd

theorem Inv.collectWrite (hinv : Inv frames r) (hread : r.readState = .standby)
    (hactive : r.activeHandle = some fd) (hothers : ∀ fd', fd' ≠ fd → (r.write fd').state ≠ .pending)
    (count : Nat) : Inv frames (r.collectWrite fd count) := by
  obtain ⟨future, hsrc, hparsed⟩ := hinv.ahead
  obtain ⟨hparsed', hthrown⟩ := hparsed.collectWrite hactive count
  have hsame := SameIo.finishFrame
    { r with write := update r.write fd ((r.write fd).collect count) } fd
  obtain ⟨hcollected, hidle⟩ := (hinv.writers fd).collect count
  have hstand : (r.collectWrite fd count).state = .standby := by
    apply if_neg
    rw [hsame.readState, hread]
    decide
  have hwrite : (r.collectWrite fd count).write =
      update r.write fd ((r.write fd).collect count) := hsame.write
  refine ⟨⟨future, hsrc.congr hsame.format hsame.input hsame.parser, hparsed'⟩, ?_, ?_, ?_, ?_⟩
  · exact hsame.input ▸ hinv.reads
  · intro fd'
    rw [hwrite]
    by_cases hfd : fd' = fd
    · rw [hfd, update_self]
      exact hcollected
    · rw [update_of_ne hfd]
      exact hinv.writers fd'
  · exact hthrown.trans hinv.thrown
  · refine .standby hstand (hsame.readState.trans hread) ?_
    intro fd'
    rw [hwrite]
    by_cases hfd : fd' = fd
    · rw [hfd, update_self]
      exact hidle
    · rw [update_of_ne hfd]
      exact hothers fd' hfd

def TakesEnd : Event → DockerIORelayHandle → Prop
  | .schedule now _, r => r.thrown = false ∧ r.state = .standby ∧ r.readState = .standby ∧
      ¬ Flushing r ∧ now = true ∧ r.input = []
  | .collect _, r => r.thrown = false ∧ r.state = .pending ∧ r.readState = .pending ∧ r.input = []

def NothingKept (e : Event) (r : DockerIORelayHandle) : Prop :=
  TakesEnd e r → ∀ fd, (r.write fd).pendingBytes = 0

def Sound (frames : List Frame) (r : DockerIORelayHandle) : Prop :=
  Inv frames r ∨ r.thrown = true ∧ r.state ≠ .completed

theorem active_of_flushing (hflush : Flushing r) : ∃ fd, r.activeHandle = some fd :=
  Option.ne_none_iff_exists'.mp hflush.1

theorem Inv.schedule (hinv : Inv frames r) (hstate : r.state = .standby) (now : Bool) (count : Nat) :
    Sound frames (r.schedule now count) := by
  by_cases hflush : Flushing r
  · obtain ⟨fd, hactive⟩ := active_of_flushing hflush
    rw [schedule_flushing hactive hflush.2]
    cases hinv.phase with
    | standby _ hread hwrite => exact .inl (hinv.flush hstate hread hwrite hactive now count)
    | drained _ _ _ hnot _ => exact absurd hflush hnot
    | reading hpend _ _ _ => simp [hstate] at hpend
    | writing _ hpend _ _ _ _ => simp [hstate] at hpend
  · rw [schedule_not_flushing hflush]
    cases hinv.phase with
    | standby _ hread hwrite =>
      rw [if_neg (by simp [hread])]
      cases now with
      | true =>
        have hnext := hinv.collectRead hwrite hflush
        rw [collectRead_of_standby hstate] at hnext
        have hsame := (completeRead_same r).2.trans hstate
        exact hnext.imp_right fun hthrown => ⟨hthrown, by simp [hsame]⟩
      | false =>
        exact .inl ⟨hinv.ahead.congr rfl rfl rfl rfl rfl rfl rfl, hinv.reads, hinv.writers, hinv.thrown,
          .reading rfl rfl hwrite hflush⟩
    | drained _ hread hwrite hflush hinput =>
      rw [if_pos hread]
      exact .inl ⟨hinv.ahead.congr rfl rfl rfl rfl rfl rfl rfl, hinv.reads, hinv.writers, hinv.thrown,
        .drained (.inr rfl) hread hwrite hflush hinput⟩
    | reading hpend _ _ _ => simp [hstate] at hpend
    | writing _ hpend _ _ _ _ => simp [hstate] at hpend

theorem collect_reading (hwrite : ∀ fd, (r.write fd).state ≠ .pending) (count : Nat) :
    r.collect count = r.collectRead := by
  unfold collect
  split
  · rename_i fd _
    rw [if_neg (hwrite fd)]
  · rfl

theorem collect_writing (hactive : r.activeHandle = some fd) (hpend : (r.write fd).state = .pending)
    (count : Nat) : r.collect count = r.collectWrite fd count := by
  simp only [collect, hactive, hpend, if_true]

theorem Inv.collect (hinv : Inv frames r) (hstate : r.state = .pending) (count : Nat) :
    Sound frames (r.collect count) := by
  cases hinv.phase with
  | reading _ _ hwrite hflush =>
    rw [collect_reading hwrite]
    exact (hinv.collectRead hwrite hflush).imp_right fun hthrown =>
      ⟨hthrown, by simp [DockerIORelayHandle.collectRead]⟩
  | writing fd _ hread hactive hpend hothers =>
    rw [collect_writing hactive hpend]
    exact .inl (hinv.collectWrite hread hactive hothers count)
  | standby hstand _ _ => simp [hstate] at hstand
  | drained hdrained _ _ _ _ => simp [hstate] at hdrained

theorem sound_step (e : Event) (r : DockerIORelayHandle) (hsound : Sound frames r) :
    Sound frames (step e r) := by
  obtain hinv | hthrown := hsound
  · cases e with
    | schedule now count =>
      simp only [step]
      split
      · rename_i hcalled
        exact hinv.schedule hcalled.2 now count
      · exact .inl hinv
    | collect count =>
      simp only [step]
      split
      · rename_i hcalled
        exact hinv.collect hcalled.2 count
      · exact .inl hinv
  · have hstay : step e r = r := by cases e <;> simp [step, hthrown.1]
    rw [hstay]
    exact .inr hthrown

variable {e : Event}

theorem step_of_completed (hinv : Inv frames r) (hread : r.readState = .completed) :
    (step e r).readState = .completed ∧ (step e r).write = r.write := by
  cases hinv.phase with
  | drained hstate _ _ hflush _ =>
    cases e with
    | schedule now count =>
      simp only [step]
      split
      · rw [schedule_not_flushing hflush, if_pos hread]
        exact ⟨hread, rfl⟩
      · exact ⟨hread, rfl⟩
    | collect count =>
      have hnot : ¬ (¬ r.thrown ∧ r.state = .pending) := by
        rintro ⟨-, hpend⟩
        simp [hpend] at hstate
      simp only [step, if_neg hnot]
      exact ⟨hread, trivial⟩
  | standby _ hread' _ => simp [hread'] at hread
  | reading _ hread' _ _ => simp [hread'] at hread
  | writing _ _ hread' _ _ _ => simp [hread'] at hread

theorem collectRead_end (hahead : Ahead frames r) (hinput : r.input = []) :
    r.collectRead.readState = .completed ∧ r.collectRead.write = r.write := by
  obtain ⟨threw, hend⟩ := completeRead_end hahead hinput
  simp [collectRead, hend]

theorem step_of_takesEnd (hinv : Inv frames r) (hend : TakesEnd e r) :
    (step e r).readState = .completed ∧ (step e r).write = r.write := by
  cases e with
  | schedule now count =>
    obtain ⟨hthrown, hstate, hread, hflush, rfl, hinput⟩ := hend
    have hcalled : step (.schedule true count) r = r.collectRead := by
      rw [step, if_pos ⟨by simp [hthrown], hstate⟩, schedule_not_flushing hflush,
        if_neg (by simp [hread]), if_pos rfl, collectRead_of_standby hstate]
    rw [hcalled]
    exact collectRead_end hinv.ahead hinput
  | collect count =>
    obtain ⟨hthrown, hstate, hread, hinput⟩ := hend
    cases hinv.phase with
    | reading _ _ hwrite _ =>
      rw [step, if_pos ⟨by simp [hthrown], hstate⟩, collect_reading hwrite]
      exact collectRead_end hinv.ahead hinput
    | standby _ hread' _ => simp [hread'] at hread
    | writing _ _ hread' _ _ _ => simp [hread'] at hread
    | drained _ hread' _ _ _ => simp [hread'] at hread

theorem collectRead_next (hinv : Inv frames r) (hinput : r.input ≠ []) :
    r.collectRead.readState = .standby := by
  obtain ⟨x, later, hcons⟩ := exists_cons_of_ne_nil hinput
  exact (completeRead_next hinv.ahead hinv.thrown hcons (hinv.reads x (by simp [hcons]))).2.2.1

theorem flush_readState (now : Bool) (count : Nat) : (r.flush fd now count).readState = r.readState := by
  unfold flush
  simp only
  split
  · rfl
  · exact (SameIo.finishFrame (r.startWrite fd now count) fd).readState

theorem takesEnd_of_schedule (hinv : Inv frames r) (hstate : r.state = .standby)
    (hread : r.readState ≠ .completed) (hdone : (r.schedule now count).readState = .completed) :
    TakesEnd (.schedule now count) r := by
  by_cases hflush : Flushing r
  · obtain ⟨fd, hactive⟩ := active_of_flushing hflush
    rw [schedule_flushing hactive hflush.2, flush_readState] at hdone
    exact absurd hdone hread
  · rw [schedule_not_flushing hflush, if_neg hread] at hdone
    cases now with
    | false => cases hdone
    | true =>
      rw [if_pos rfl, ← collectRead_of_standby hstate] at hdone
      cases hinv.phase with
      | standby _ hstand _ =>
        refine ⟨hinv.thrown, hstate, hstand, hflush, rfl, ?_⟩
        by_contra hinput
        rw [collectRead_next hinv hinput] at hdone
        cases hdone
      | drained _ hread' _ _ _ => exact absurd hread' hread
      | reading hpend _ _ _ => simp [hstate] at hpend
      | writing _ hpend _ _ _ _ => simp [hstate] at hpend

theorem takesEnd_of_collect (hinv : Inv frames r) (hstate : r.state = .pending)
    (hdone : (r.collect count).readState = .completed) : TakesEnd (.collect count) r := by
  cases hinv.phase with
  | reading _ hread hwrite _ =>
    refine ⟨hinv.thrown, hstate, hread, ?_⟩
    rw [collect_reading hwrite] at hdone
    by_contra hinput
    rw [collectRead_next hinv hinput] at hdone
    cases hdone
  | writing fd _ hread hactive hpend _ =>
    rw [collect_writing hactive hpend] at hdone
    have hsame := (SameIo.finishFrame
      { r with write := update r.write fd ((r.write fd).collect count) } fd).readState
    exact absurd (hdone.symm.trans (hsame.trans hread)) (by decide)
  | standby hstand _ _ => simp [hstate] at hstand
  | drained hdrained _ _ _ _ => simp [hstate] at hdrained

theorem takesEnd_of_step (hinv : Inv frames r) (hread : r.readState ≠ .completed)
    (hdone : (step e r).readState = .completed) : TakesEnd e r := by
  cases e with
  | schedule now count =>
    simp only [step] at hdone
    split at hdone
    · rename_i hcalled
      exact takesEnd_of_schedule hinv hcalled.2 hread hdone
    · exact absurd hdone hread
  | collect count =>
    simp only [step] at hdone
    split at hdone
    · rename_i hcalled
      exact takesEnd_of_collect hinv hcalled.2 hdone
    · exact absurd hdone hread

def Lost (r : DockerIORelayHandle) : Prop :=
  r.readState = .completed ∧ ∃ fd, (r.write fd).pendingBytes ≠ 0

theorem step_of_thrown (e : Event) (hthrown : r.thrown = true) : step e r = r := by
  cases e <;> simp [step, hthrown]

theorem not_lost_step (e : Event) (r : DockerIORelayHandle) (hr : Sound frames r ∧ ¬ Lost r)
    (hkept : NothingKept e r) : Sound frames (step e r) ∧ ¬ Lost (step e r) := by
  refine ⟨sound_step e r hr.1, ?_⟩
  obtain ⟨hinv | hthrown, hlost⟩ := hr
  · rintro ⟨hdone, fd, hbytes⟩
    by_cases hread : r.readState = .completed
    · rw [(step_of_completed hinv hread).2] at hbytes
      exact hlost ⟨hread, fd, hbytes⟩
    · have hend := takesEnd_of_step hinv hread hdone
      rw [(step_of_takesEnd hinv hend).2] at hbytes
      exact hbytes (hkept hend fd)
  · rw [step_of_thrown e hthrown.1]
    exact hlost

theorem lost_of_kept (e : Event) (r : DockerIORelayHandle) (hr : Sound frames r)
    (hkept : ¬ NothingKept e r) : Lost (step e r) := by
  unfold NothingKept at hkept
  push Not at hkept
  obtain ⟨hend, fd, hbytes⟩ := hkept
  obtain hinv | hthrown := hr
  · obtain ⟨hdone, hwrite⟩ := step_of_takesEnd hinv hend
    exact ⟨hdone, fd, by rw [hwrite]; exact hbytes⟩
  · cases e <;> simp [TakesEnd, hthrown.1] at hend

theorem lost_step (e : Event) (r : DockerIORelayHandle) (hr : Sound frames r) (hlost : Lost r) :
    Lost (step e r) := by
  obtain hinv | hthrown := hr
  · obtain ⟨hdone, hwrite⟩ := step_of_completed (e := e) hinv hlost.1
    refine ⟨hdone, ?_⟩
    rw [hwrite]
    exact hlost.2
  · rw [step_of_thrown e hthrown.1]
    exact hlost

theorem pushed_of_completed (hinv : Inv frames r) (hstate : r.state = .completed) :
    r.readState = .completed ∧ ∀ fd, (r.write fd).pushed = payloadsOf fd frames := by
  cases hinv.phase with
  | drained _ hread _ hflush hinput =>
    refine ⟨hread, ?_⟩
    obtain ⟨future, hsrc, hparsed⟩ := hinv.ahead
    obtain rfl := hsrc.nil hinput
    cases hparsed with
    | between done rest hframes _ hshort hbytes hpush =>
      -- a frame that is not done would have left its whole header in the buffer
      cases rest with
      | nil =>
        rw [append_nil] at hframes
        rw [hframes]
        exact hpush
      | cons f later =>
        have hlen := congrArg List.length hbytes
        rw [encodeAll_cons, length_append, length_append, length_header] at hlen
        simp only [length_nil] at hlen
        omega
    | inside done rest f front toGo hframes hactive hpay _ hbytes hpush =>
      have hbuf : r.pendingBuffer = [] := by
        by_contra hne
        exact hflush ⟨by simp [hactive], hne⟩
      rw [hbuf, nil_append] at hbytes
      obtain ⟨rfl, hrest⟩ := append_eq_nil_iff.mp hbytes.symm
      cases rest with
      | nil =>
        intro fd
        rw [hframes, payloadsOf_concat, hpay, append_nil]
        exact hpush fd
      | cons f' later =>
        rw [encodeAll_cons] at hrest
        cases (append_eq_nil_iff.mp hrest).1
  | standby hstand _ _ => simp [hstate] at hstand
  | reading hpend _ _ _ => simp [hstate] at hpend
  | writing _ hpend _ _ _ _ => simp [hstate] at hpend

theorem source_init {format : Format} {reads : List Bytes} (hreads : ∀ x ∈ reads, x ≠ [])
    (hcarries : Carries format reads frames) :
    Source { format := format, input := reads } (encodeAll frames) := by
  cases format with
  | raw => exact hcarries.symm
  | httpChunked =>
    obtain ⟨body, hflat, hdata⟩ := hcarries
    have hfold := HTTPChunkBasedReadHandle.foldlM_all body.all HTTPChunkBasedReadHandle.between_init
    rw [HTTPChunkBasedReadHandle.filter_data] at hfold
    have hparser := HTTPChunkBasedReadHandle.foldlM_onRead hreads {}
    rw [hflat] at hparser
    exact ⟨_, body.chunks.map Chunk.data, hparser.trans hfold, rfl, hdata.symm⟩

theorem inv_init {format : Format} {reads : List Bytes} (hreads : ∀ x ∈ reads, x ≠ [])
    (hcarries : Carries format reads frames) : Inv frames { format := format, input := reads } where
  ahead := ⟨encodeAll frames, source_init hreads hcarries,
    .between [] frames rfl rfl (Nat.zero_lt_succ 7) rfl fun _ => rfl⟩
  reads := hreads
  writers := fun _ => ⟨rfl, rfl, fun _ => rfl, by simp⟩
  thrown := rfl
  phase := .standby rfl rfl (by simp)

/-- A run that is completed has written exactly the payloads if and only if no writer kept
any bytes when the end of the input was read. -/
theorem written_iff (format : Format) (reads : List Bytes) (frames : List Frame) (events : List Event)
    (hreads : ∀ x ∈ reads, x ≠ []) (hcarries : Carries format reads frames)
    (hdone : (runSteps step events { format := format, input := reads }).state = .completed) :
    (∀ fd, ((runSteps step events { format := format, input := reads }).write fd).written =
        payloadsOf fd frames) ↔
      Allowed step NothingKept events { format := format, input := reads } := by
  have hinit : Sound frames { format := format, input := reads } := .inl (inv_init hreads hcarries)
  have hsound : Sound frames (runSteps step events { format := format, input := reads }) :=
    inv_runSteps_of_step sound_step hinit
  obtain hinv | hthrown := hsound
  · obtain ⟨hread, hpushed⟩ := pushed_of_completed hinv hdone
    constructor
    · intro hwritten
      by_contra hkept
      obtain ⟨-, fd, hbytes⟩ := inv_of_not_allowed sound_step lost_of_kept lost_step hinit hkept
      exact hbytes (WriteHandle.written_eq_pushed_iff.mp ((hwritten fd).trans (hpushed fd).symm))
    · intro hallowed fd
      have hstart : ¬ Lost { format := format, input := reads } := by simp [Lost]
      have hlost := (inv_runSteps not_lost_step ⟨hinit, hstart⟩ hallowed).2
      rw [← hpushed fd, WriteHandle.written_eq_pushed_iff]
      by_contra hbytes
      exact hlost ⟨hread, fd, hbytes⟩
  · exact absurd hdone hthrown.2

theorem written_iff_one_byte :
    ((runSteps step [.schedule true 0, .schedule true 0, .schedule true 0, .schedule true 0]
      { format := .raw, input := [[1, 0, 0, 0, 0, 0, 0, 1, 97]] }).write .stdout).written = [97] := by
  have hcarries : Carries .raw [[1, 0, 0, 0, 0, 0, 0, 1, 97]] [⟨.stdout, [97], by decide⟩] := rfl
  refine (written_iff .raw _ _ _ (by simp) hcarries rfl).mpr ?_ .stdout
  refine ⟨?_, ?_, ?_, ?_, trivial⟩ <;>
  · intro _ fd
    cases fd <;> rfl

/-- A frame with `ab` for the standard output, of which the write takes one byte at first:
the relay is completed and the second byte was never written. -/
theorem output_lost :
    (runSteps step [.schedule true 0, .schedule true 0, .schedule true 0, .schedule true 0]
      { format := .raw, input := [[1, 0, 0, 0, 0, 0, 0, 2, 97, 98]] }).state = .completed ∧
    ((runSteps step [.schedule true 0, .schedule true 0, .schedule true 0, .schedule true 0]
      { format := .raw, input := [[1, 0, 0, 0, 0, 0, 0, 2, 97, 98]] }).write .stdout).written = [97] ∧
    Carries .raw [[1, 0, 0, 0, 0, 0, 0, 2, 97, 98]] [⟨.stdout, [97, 98], by decide⟩] :=
  ⟨rfl, rfl, rfl⟩

end DockerIORelayHandle

end WslPlus.HandleIo
