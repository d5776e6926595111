import WslPlus.HandleIo.RingBuffer

/-!
# The latest lines of the guest's log

`GetLastDelimitedStrings` looks for lines from the end of the contents backwards. A delimiter that
begins a line is not taken as the end of the line before it, so that every second line is passed
over.
-/

namespace WslPlus.HandleIo

open List

namespace RingBuffer

/-- The variables of `GetLastDelimitedStrings` that its loops change. -/
structure Scan where
  results : List Bytes := []
  endIndex : Option Nat := none
  partialLine : Bytes := []

/-- The loop over the end of the contents. The number is the loop variable. -/
def scanEnd (delimiter : UInt8) (count : Nat) (text : Bytes) : Nat → Scan → Scan
  | 0, s => s
  | i + 1, s =>
    if s.results.length = count then s
    else if text[i]? = some delimiter then
      match s.endIndex with
      | some last => scanEnd delimiter count text i
          { s with results := (text.drop (i + 1)).take (last - (i + 1)) :: s.results, endIndex := none }
      | none => scanEnd delimiter count text i { s with endIndex := some i }
    else scanEnd delimiter count text i s

/-- The loop over the beginning of the contents, where a line may go on at the end of the storage. -/
def scanBegin (delimiter : UInt8) (count : Nat) (text : Bytes) : Nat → Scan → Scan
  | 0, s => s
  | i + 1, s =>
    if s.results.length = count then s
    else if text[i]? = some delimiter then
      if s.partialLine ≠ [] then
        scanBegin delimiter count text i
          { s with results := (text.drop (i + 1) ++ s.partialLine) :: s.results, partialLine := [] }
      else match s.endIndex with
      | some last => scanBegin delimiter count text i
          { s with results := (text.drop (i + 1)).take (last - (i + 1)) :: s.results, endIndex := none }
      | none => scanBegin delimiter count text i { s with endIndex := some i }
    else scanBegin delimiter count text i s

def getLastDelimitedStrings (b : RingBuffer) (delimiter : UInt8) (count : Nat) : List Bytes :=
  let (front, back) := b.contents
  let s := scanEnd delimiter count back back.length {}
  if s.results.length = count then s.results
  else
    let partialLine := match s.endIndex with
      | some last => back.take last
      | none => []
    let s := scanBegin delimiter count front front.length { results := s.results, partialLine }
    if s.results.length < count then
      if s.partialLine ≠ [] then s.partialLine :: s.results
      else match s.endIndex with
      | some last => front.take last :: s.results
      | none => s.results
    else s.results

/-- The lines of a text that a delimiter ends, the latest one first, and what follows them. -/
def pieces (delimiter : UInt8) (text : Bytes) : List Bytes × Bytes :=
  text.foldl (fun s c => if c = delimiter then (s.2 :: s.1, []) else (s.1, s.2 ++ [c])) ([], [])

def nonempty (lines : List Bytes) : List Bytes := lines.filter (· ≠ [])

/-- What the function is for: the last lines that are not empty, in order. -/
def lastLines (delimiter : UInt8) (count : Nat) (text : Bytes) : List Bytes :=
  ((nonempty (pieces delimiter text).1).take count).reverse

theorem pieces_concat (delimiter : UInt8) (text : Bytes) (c : UInt8) : pieces delimiter (text ++ [c]) =
    if c = delimiter then ((pieces delimiter text).2 :: (pieces delimiter text).1, [])
    else ((pieces delimiter text).1, (pieces delimiter text).2 ++ [c]) := by
  rw [pieces, foldl_append]
  rfl

/-- What the loops make of the ends of lines: they are taken in pairs, and the last one may be left. -/
def pairs : List Bytes → List Bytes × Option Bytes
  | [] => ([], none)
  | [l] => ([], some l)
  | l :: _ :: rest => (l :: (pairs rest).1, (pairs rest).2)

section Scanning

variable {delimiter : UInt8} {count : Nat} {text : Bytes}

/-- The lines that the loop still has to look at, with the one whose end was found. -/
def pending (delimiter : UInt8) (text : Bytes) (i : Nat) (s : Scan) : List Bytes :=
  let read := pieces delimiter (text.take i)
  if s.partialLine ≠ [] then (read.2 ++ text.drop i ++ s.partialLine) :: read.1
  else match s.endIndex with
  | some last => (read.2 ++ (text.drop i).take (last - i)) :: read.1
  | none => read.1

theorem scanEnd_eq_scanBegin (i : Nat) (s : Scan) (h : s.partialLine = []) :
    scanEnd delimiter count text i s = scanBegin delimiter count text i s := by
  induction i generalizing s with
  | zero => rfl
  | succ i ih =>
    rw [scanEnd, scanBegin]
    split
    · rfl
    · split
      · rw [if_neg (not_not_intro h)]
        split
        · exact ih _ h
        · exact ih _ h
      · exact ih s h

/-- The loop has come to `s'`. Unless it was stopped, what is left is the end of the oldest line. -/
structure Scanned (count : Nat) (text : Bytes) (lines : List Bytes) (s s' : Scan) : Prop where
  results : s'.results = ((pairs lines).1.take (count - s.results.length)).reverse ++ s.results
  left : s'.results.length < count → s'.partialLine = [] → s'.endIndex.map text.take = (pairs lines).2
  alone : s'.partialLine ≠ [] → s' = s

variable {lines : List Bytes}

theorem Scanned.done {s : Scan} (h : (pairs lines).1 = [])
    (hleft : s.partialLine = [] → s.endIndex.map text.take = (pairs lines).2) :
    Scanned count text lines s s := by
  refine ⟨?_, fun _ => hleft, fun _ => rfl⟩
  rw [h, take_nil]
  rfl

theorem Scanned.emit {s s₁ s' : Scan} {line other : Bytes}
    (h : Scanned count text lines s₁ s') (hresults : s₁.results = line :: s.results)
    (hpart : s₁.partialLine = [])
    (hlt : s.results.length < count) : Scanned count text (line :: other :: lines) s s' := by
  refine ⟨?_, h.left, ?_⟩
  · rw [h.results, hresults, pairs, show count - s.results.length = count - (line :: s.results).length + 1 by
      rw [length_cons]; omega, take_succ_cons, reverse_cons, append_assoc]
    rfl
  · intro hne
    rw [h.alone hne] at hne
    exact absurd hpart hne

theorem Scanned.search {s s₁ s' : Scan} (h : Scanned count text lines s₁ s')
    (hresults : s₁.results = s.results) (hpart : s₁.partialLine = []) : Scanned count text lines s s' := by
  refine ⟨hresults ▸ h.results, h.left, ?_⟩
  intro hne
  rw [h.alone hne] at hne
  exact absurd hpart hne

theorem pieces_take_delimiter {i : Nat} (h : text[i]? = some delimiter) : pieces delimiter (text.take (i + 1)) =
    ((pieces delimiter (text.take i)).2 :: (pieces delimiter (text.take i)).1, []) := by
  rw [take_add_one, h, Option.toList_some, pieces_concat, if_pos rfl]

/-- A character inside a line goes from what is to be read to what was read. -/
theorem pending_succ {i : Nat} {s : Scan} (hi : i < text.length) (h : text[i]? ≠ some delimiter)
    (hle : ∀ last, s.endIndex = some last → i < last) :
    pending delimiter text (i + 1) s = pending delimiter text i s := by
  have hdrop : text.drop i = text[i] :: text.drop (i + 1) := drop_eq_getElem_cons hi
  have hne : text[i] ≠ delimiter := by
    intro heq
    rw [getElem?_eq_getElem hi, heq] at h
    exact h rfl
  unfold pending
  rw [take_add_one, getElem?_eq_getElem hi, Option.toList_some, pieces_concat, if_neg hne, hdrop]
  dsimp only
  split
  · rw [append_assoc _ [text[i]], singleton_append]
  · split
    · rename_i last heq
      have hlast := hle last heq
      rw [append_assoc, singleton_append, show last - i = last - (i + 1) + 1 by omega, take_succ_cons]
    · rfl

/-- The loop, from the loop variable `i` on. -/
theorem scanBegin_scanned (delimiter : UInt8) (i : Nat) (s : Scan) (hi : i ≤ text.length)
    (hs : s.results.length ≤ count)
    (hle : ∀ last, s.endIndex = some last → i ≤ last) (hnone : s.partialLine ≠ [] → s.endIndex = none) :
    Scanned count text (pending delimiter text i s) s (scanBegin delimiter count text i s) := by
  induction i generalizing s with
  | zero =>
    unfold pending
    rw [take_zero]
    change Scanned count text (if s.partialLine ≠ [] then [_] else match s.endIndex with | some last => [_] | none => []) s s
    split
    case isTrue h => exact .done rfl (fun hnil => absurd hnil h)
    case isFalse h =>
      split
      case h_1 heq => exact .done rfl (fun _ => by rw [heq]; rfl)
      case h_2 heq => exact .done rfl (fun _ => by rw [heq]; rfl)
  | succ i ih =>
    rw [scanBegin]
    split
    case isTrue hfull =>
      refine ⟨?_, fun hlt => absurd hfull (Nat.ne_of_lt hlt), fun _ => rfl⟩
      rw [hfull, Nat.sub_self, take_zero]
      rfl
    case isFalse hfull =>
      have hlt : s.results.length < count := Nat.lt_of_le_of_ne hs hfull
      split
      case isTrue hc =>
        have hp := pieces_take_delimiter hc
        split
        case isTrue hpart =>
          have hend := hnone hpart
          simp only [pending, hp, if_pos hpart, nil_append, hend]
          have hrest := ih { s with results := (text.drop (i + 1) ++ s.partialLine) :: s.results, partialLine := [] }
            (by omega) hlt (fun last heq => by rw [hend] at heq; cases heq) (fun h => absurd rfl h)
          simp only [pending, if_neg (not_not_intro rfl), hend] at hrest
          exact hrest.emit rfl rfl hlt
        case isFalse hpart =>
          have hnil : s.partialLine = [] := Decidable.not_not.mp hpart
          simp only [pending, hp, if_neg hpart, nil_append]
          cases hend : s.endIndex with
          | some last =>
            have hrest := ih { s with results := (text.drop (i + 1)).take (last - (i + 1)) :: s.results, endIndex := none }
              (by omega) hlt (fun last heq => by cases heq) (fun h => absurd hnil h)
            simp only [pending, if_neg hpart] at hrest
            exact hrest.emit rfl hnil hlt
          | none =>
            have hrest := ih { s with endIndex := some i } (by omega) hs (fun last heq => by cases heq; exact Nat.le_refl i)
              (fun h => absurd hnil h)
            simp only [pending, if_neg hpart, Nat.sub_self, take_zero, append_nil] at hrest
            exact hrest.search rfl hnil
      case isFalse hc =>
        have hlast : ∀ last, s.endIndex = some last → i < last := fun last heq => hle last heq
        rw [pending_succ (by omega) hc hlast]
        exact ih s (by omega) hs (fun last heq => Nat.le_of_lt (hlast last heq)) hnone

end Scanning

/-- All the ends of lines, the last one with its line as far as it is there. -/
def ends (lines : List Bytes) : List Bytes := (pairs lines).1 ++ (pairs lines).2.toList

def found (delimiter : UInt8) (front back : Bytes) : List Bytes :=
  let before := pieces delimiter front
  let after := pairs (pieces delimiter back).1
  let open? := after.2.getD []
  after.1 ++ (if open? ≠ [] then if before.1 = [] then [open?] else ends ((before.2 ++ open?) :: before.1)
    else ends before.1)

variable {delimiter : UInt8}

theorem pieces_of_no_line {text : Bytes} (h : (pieces delimiter text).1 = []) :
    (pieces delimiter text).2 = text := by
  induction text using List.reverseRecOn with
  | nil => rfl
  | append_singleton text c ih =>
    rw [pieces_concat] at h ⊢
    split at h
    · cases h
    · rw [if_neg ‹_›]
      exact congrArg (· ++ [c]) (ih h)

theorem scanEnd_all (delimiter : UInt8) (count : Nat) (back : Bytes) :
    (scanEnd delimiter count back back.length {}).results
        = ((pairs (pieces delimiter back).1).1.take count).reverse ∧
      ((scanEnd delimiter count back back.length {}).results.length < count →
        (scanEnd delimiter count back back.length {}).endIndex.map back.take
          = (pairs (pieces delimiter back).1).2) := by
  rw [scanEnd_eq_scanBegin _ _ rfl]
  have h := scanBegin_scanned delimiter back.length {} (Nat.le_refl _) (Nat.zero_le count) (fun _ heq => by cases heq) (fun h => absurd rfl h)
  have hpend : pending delimiter back back.length {} = (pieces delimiter back).1 := by
    rw [pending, take_length]
    rfl
  rw [hpend] at h
  refine ⟨by rw [h.results, append_nil]; rfl, fun hlt => h.left hlt ?_⟩
  by_contra hne
  rw [h.alone hne] at hne
  exact hne rfl

variable {count : Nat}

/-- What the function returns when the second loop has no open line any more. -/
theorem Scanned.finish {front : Bytes} {lines : List Bytes} {s s' : Scan} (h : Scanned count front lines s s')
    (hs : s.results.length < count) (hnil : s'.partialLine = []) :
    (if s'.results.length < count then
      match s'.endIndex with
      | some last => front.take last :: s'.results
      | none => s'.results
    else s'.results) = ((ends lines).take (count - s.results.length)).reverse ++ s.results := by
  have hlen : s'.results.length = min (count - s.results.length) (pairs lines).1.length + s.results.length := by
    rw [h.results, length_append, length_reverse, length_take]
  split
  case isTrue hlt =>
    have hshort : (pairs lines).1.length < count - s.results.length := by omega
    have hall := h.results
    rw [take_of_length_le (Nat.le_of_lt hshort)] at hall
    rw [ends, ← h.left hlt hnil, take_append, take_of_length_le (Nat.le_of_lt hshort)]
    cases s'.endIndex with
    | none => simp only [hall, Option.map_none, Option.toList_none, take_nil, append_nil]
    | some last =>
      rw [Option.map_some, Option.toList_some, take_of_length_le, reverse_append, hall]
      · rfl
      · rw [length_singleton]
        omega
  case isFalse hlt => rw [h.results, ends, take_append_of_le_length (by omega)]

/-- The second loop and what follows it, where the first one has found fewer lines than asked for. -/
theorem scanBegin_all (delimiter : UInt8) (front open? : Bytes) {results : List Bytes}
    (hlt : results.length < count) :
    (let s := scanBegin delimiter count front front.length { results, partialLine := open? }
      if s.results.length < count then
        if s.partialLine ≠ [] then s.partialLine :: s.results
        else match s.endIndex with
        | some last => front.take last :: s.results
        | none => s.results
      else s.results) =
    ((if open? ≠ [] then
        if (pieces delimiter front).1 = [] then [open?]
        else ends (((pieces delimiter front).2 ++ open?) :: (pieces delimiter front).1)
      else ends (pieces delimiter front).1).take (count - results.length)).reverse ++ results := by
  have h := scanBegin_scanned delimiter front.length { results, partialLine := open? }
    (Nat.le_refl _) (Nat.le_of_lt hlt) (fun _ heq => by cases heq) (fun _ => rfl)
  dsimp only
  generalize scanBegin delimiter count front front.length { results, partialLine := open? } = s at h ⊢
  simp only [pending, take_length, drop_length, append_nil] at h
  by_cases hopen : open? = []
  case pos =>
    have hnil : s.partialLine = [] := by
      by_contra hne
      rw [h.alone hne] at hne
      exact hne hopen
    rw [if_neg (not_not_intro hopen)] at h ⊢
    rw [← h.finish hlt hnil, if_neg (not_not_intro hnil)]
  case neg =>
    rw [if_pos hopen] at h ⊢
    cases hlines : (pieces delimiter front).1 with
    | nil =>
      rw [hlines, pieces_of_no_line hlines] at h
      have hresults : s.results = results := by
        rw [h.results, pairs, take_nil]
        rfl
      have hne : s.partialLine ≠ [] := by
        intro hnil
        have hleft := h.left (hresults ▸ hlt) hnil
        obtain ⟨last, -, hlast⟩ := Option.map_eq_some_iff.mp hleft
        have hlen := congrArg List.length hlast
        rw [length_take, length_append] at hlen
        have := length_pos_of_ne_nil hopen
        omega
      rw [if_pos (hresults ▸ hlt), if_pos hne, if_pos rfl, take_of_length_le, h.alone hne]
      · rfl
      · rw [length_singleton]
        omega
    | cons line lines =>
      rw [hlines] at h
      have hnil : s.partialLine = [] := by
        by_contra hne
        have hlen := congrArg List.length h.results
        rw [h.alone hne, length_append, length_reverse, length_take, pairs, length_cons] at hlen
        dsimp only at hlen
        omega
      rw [if_neg (cons_ne_nil line lines), ← h.finish hlt hnil, if_neg (not_not_intro hnil)]

theorem getLastDelimitedStrings_eq (b : RingBuffer) (delimiter : UInt8) (count : Nat) :
    b.getLastDelimitedStrings delimiter count
      = ((found delimiter b.contents.1 b.contents.2).take count).reverse := by
  obtain ⟨hresults, hleft⟩ := scanEnd_all delimiter count b.contents.2
  have hlen : (scanEnd delimiter count b.contents.2 b.contents.2.length {}).results.length
      = min count (pairs (pieces delimiter b.contents.2).1).1.length := by
    rw [hresults, length_reverse, length_take]
  unfold getLastDelimitedStrings found
  dsimp only
  split
  case isTrue hfull => rw [hresults, take_append_of_le_length (by omega)]
  case isFalse hfull =>
    have hlt : (scanEnd delimiter count b.contents.2 b.contents.2.length {}).results.length < count := by omega
    have hopen : (match (scanEnd delimiter count b.contents.2 b.contents.2.length {}).endIndex with
        | some last => b.contents.2.take last
        | none => []) = (pairs (pieces delimiter b.contents.2).1).2.getD [] := by
      rw [← hleft hlt]
      split
      case h_1 heq => rw [heq]; rfl
      case h_2 heq => rw [heq]; rfl
    rw [hopen, scanBegin_all delimiter _ _ hlt, hlen, take_append, reverse_append, hresults,
      show min count _ = _ from Nat.min_eq_right (by omega)]

def alternate : Bool → List Bytes → List (Bool × Bytes)
  | _, [] => []
  | mark, line :: rest => (mark, line) :: alternate (!mark) rest

def kept (marked : List (Bool × Bytes)) : List Bytes := (marked.filter (·.1)).map (·.2)

@[simp] theorem kept_append (xs ys : List (Bool × Bytes)) : kept (xs ++ ys) = kept xs ++ kept ys := by
  rw [kept, filter_append, map_append]
  rfl

@[simp] theorem map_alternate (mark : Bool) (lines : List Bytes) :
    (alternate mark lines).map (·.2) = lines := by
  induction lines generalizing mark with
  | nil => rfl
  | cons line rest ih => exact congrArg (line :: ·) (ih (!mark))

theorem kept_alternate (lines : List Bytes) : kept (alternate true lines) = ends lines := by
  induction lines using pairs.induct with
  | case1 => rfl
  | case2 line => rfl
  | case3 line other rest ih => exact congrArg (line :: ·) ih

theorem kept_alternate_false (line : Bytes) (lines : List Bytes) :
    kept (alternate false (line :: lines)) = kept (alternate true lines) := rfl

theorem pairs_concat (lines : List Bytes) (oldest : Bytes) : pairs (lines ++ [oldest]) =
    (kept (alternate true lines), if lines.length % 2 = 0 then some oldest else none) := by
  induction lines using pairs.induct with
  | case1 => rfl
  | case2 line => rfl
  | case3 line other rest ih =>
    rw [cons_append, cons_append, pairs, ih, length_cons, length_cons, Nat.add_assoc,
      Nat.add_mod_right]
    rfl

theorem length_kept_alternate (lines : List Bytes) :
    (kept (alternate true lines)).length = (lines.length + 1) / 2 := by
  induction lines using pairs.induct with
  | case1 => rfl
  | case2 line => simp [alternate, kept]
  | case3 line other rest ih =>
    change (kept (alternate true rest)).length + 1 = _
    rw [ih, length_cons, length_cons]
    omega

/-- A line that goes over the end of the storage is put together. -/
theorem pieces_append (delimiter : UInt8) (front back : Bytes) : (pieces delimiter (front ++ back)) =
    if (pieces delimiter back).1 = [] then
      ((pieces delimiter front).1, (pieces delimiter front).2 ++ (pieces delimiter back).2)
    else ((pieces delimiter back).1.dropLast
      ++ ((pieces delimiter front).2 ++ (pieces delimiter back).1.getLastD []) :: (pieces delimiter front).1,
      (pieces delimiter back).2) := by
  induction back using List.reverseRecOn with
  | nil => simp [pieces]
  | append_singleton back c ih =>
    rw [← append_assoc, pieces_concat, pieces_concat, ih]
    cases hlines : (pieces delimiter back).1 with
    | nil =>
      by_cases hc : c = delimiter <;> simp [hc]
    | cons line lines =>
      by_cases hc : c = delimiter <;> simp [hc]

/-- The lines of the contents, the latest one first, each with whether it is taken. The last one
that ends in front of the wrap is not taken if it ends right at the start of the storage. -/
def marked (b : RingBuffer) (delimiter : UInt8) : List (Bool × Bytes) :=
  let before := pieces delimiter b.contents.1
  let lines := (pieces delimiter b.contents.2).1
  if lines = [] then alternate true before.1
  else alternate true lines.dropLast ++
    alternate (lines.length % 2 = 1 ∧ lines.getLastD [] ≠ []) ((before.2 ++ lines.getLastD []) :: before.1)

def CutAtWrap (b : RingBuffer) (delimiter : UInt8) : Prop :=
  let lines := (pieces delimiter b.contents.2).1
  lines.length % 2 = 1 ∧ lines.getLastD [] ≠ [] ∧ (pieces delimiter b.contents.1).1 = [] ∧ b.contents.1 ≠ []

/-- Of the latest lines, up to the given number of lines that are taken, those that are taken are
the ones that are not empty. -/
def Agrees : Nat → List (Bool × Bytes) → Prop
  | 0, _ => True
  | _, [] => True
  | n + 1, (true, line) :: rest => line ≠ [] ∧ Agrees n rest
  | n + 1, (false, line) :: rest => line = [] ∧ Agrees (n + 1) rest

/-- Up to the lines that are asked for, only empty ones are passed over, and no line is cut. -/
def Clean (b : RingBuffer) (delimiter : UInt8) (count : Nat) : Prop :=
  Agrees count (b.marked delimiter) ∧
    (b.CutAtWrap delimiter → count ≤ (pieces delimiter b.contents.2).1.length / 2)

theorem nonempty_cons (line : Bytes) (lines : List Bytes) :
    nonempty (line :: lines) = if line = [] then nonempty lines else line :: nonempty lines := by
  unfold nonempty
  by_cases h : line = [] <;> simp [h]

theorem take_kept_of_agrees {n : Nat} {marked : List (Bool × Bytes)} (h : Agrees n marked) :
    (kept marked).take n = (nonempty (marked.map (·.2))).take n := by
  induction n, marked using Agrees.induct with
  | case1 => rw [take_zero, take_zero]
  | case2 => rfl
  | case3 n line rest ih =>
    rw [map_cons, nonempty_cons, if_neg h.1, take_succ_cons, ← ih h.2]
    rfl
  | case4 n line rest ih =>
    rw [map_cons, nonempty_cons, if_pos h.1, ← ih h.2]
    rfl

theorem kept_sublist (marked : List (Bool × Bytes)) : (kept marked).Sublist (marked.map (·.2)) :=
  filter_sublist.map _

/-- A line that is passed over leaves too few lines to take its place. -/
theorem agrees_of_kept {marked : List (Bool × Bytes)} (h : kept marked = nonempty (marked.map (·.2)))
    (n : Nat) :
    Agrees n marked := by
  induction n, marked using Agrees.induct with
  | case1 => simp only [Agrees]
  | case2 => simp only [Agrees]
  | case3 n line rest ih =>
    have hne : line ≠ [] := by
      have hmem : line ∈ kept ((true, line) :: rest) := mem_cons_self
      rw [h] at hmem
      exact of_decide_eq_true (mem_filter.mp hmem).2
    refine ⟨hne, ih ?_⟩
    rw [map_cons, nonempty_cons, if_neg hne] at h
    exact (List.cons.inj h).2
  | case4 n line rest ih =>
    change kept rest = _ at h
    rw [map_cons, nonempty_cons] at h
    by_cases hline : line = []
    · rw [if_pos hline] at h
      exact ⟨hline, ih h⟩
    · rw [if_neg hline] at h
      have hle : (nonempty (kept rest)).length ≤ _ := ((kept_sublist rest).filter (· ≠ [])).length_le
      have hsame : nonempty (nonempty (rest.map (·.2))) = nonempty (rest.map (·.2)) := by
        rw [nonempty, nonempty, filter_filter]
        simp only [Bool.and_self]
      rw [h, nonempty_cons, if_neg hline, hsame] at hle
      exact absurd hle (Nat.not_succ_le_self _)

theorem map_marked (b : RingBuffer) (delimiter : UInt8) :
    (b.marked delimiter).map (·.2) = (pieces delimiter b.get).1 := by
  rw [get, pieces_append, marked]
  split <;> simp

variable {b : RingBuffer}

theorem found_eq (h : ¬b.CutAtWrap delimiter) :
    found delimiter b.contents.1 b.contents.2 = kept (b.marked delimiter) := by
  unfold CutAtWrap at h
  unfold found marked
  dsimp only at h ⊢
  obtain hlines | ⟨lines, oldest, hlines⟩ := eq_nil_or_concat' (pieces delimiter b.contents.2).1
  · rw [hlines, if_pos rfl, kept_alternate]
    rfl
  · rw [hlines] at h ⊢
    rw [getLastD_concat] at h
    rw [if_neg (append_ne_nil_of_right_ne_nil lines (cons_ne_nil oldest [])), pairs_concat,
      dropLast_concat, getLastD_concat, kept_append]
    congr 1
    by_cases heven : lines.length % 2 = 0
    · have hodd : (lines ++ [oldest]).length % 2 = 1 := by
        rw [length_append, length_singleton]
        omega
      rw [hodd] at h ⊢
      simp only [heven, if_true, Option.getD_some, true_and] at h ⊢
      by_cases holdest : oldest = []
      · rw [if_neg (not_not_intro holdest), decide_eq_false (not_not_intro holdest), kept_alternate_false, kept_alternate]
      · rw [if_pos holdest, decide_eq_true holdest, kept_alternate]
        split
        case isTrue hnone =>
          have hfront : b.contents.1 = [] := by
            by_contra hne
            exact h ⟨holdest, hnone, hne⟩
          rw [pieces_of_no_line hnone, hnone, hfront]
          rfl
        case isFalse => rfl
    · have hodd : ¬(lines ++ [oldest]).length % 2 = 1 := by
        rw [length_append, length_singleton]
        omega
      simp only [heven, hodd, if_false, Option.getD_none, false_and, decide_false, kept_alternate_false, kept_alternate]
      rw [if_neg (not_not_intro rfl)]

/-- What is found if the oldest line is cut: its beginning is missing. -/
theorem found_cut (h : b.CutAtWrap delimiter) : ∃ lines oldest,
    found delimiter b.contents.1 b.contents.2 = kept (alternate true lines) ++ [oldest] ∧
      b.marked delimiter = alternate true lines ++ [(true, b.contents.1 ++ oldest)] ∧
      (kept (alternate true lines)).length = (pieces delimiter b.contents.2).1.length / 2 := by
  obtain ⟨hodd, holdest, hnone, -⟩ := h
  unfold found marked
  dsimp only
  obtain hlines | ⟨lines, oldest, hlines⟩ := eq_nil_or_concat' (pieces delimiter b.contents.2).1
  · rw [hlines] at holdest
    exact absurd rfl holdest
  · rw [hlines] at hodd holdest ⊢
    rw [getLastD_concat] at holdest
    have heven : lines.length % 2 = 0 := by
      rw [length_append, length_singleton] at hodd
      omega
    refine ⟨lines, oldest, ?_, ?_, ?_⟩
    · rw [pairs_concat, if_pos heven, Option.getD_some, if_pos holdest, if_pos hnone]
    · rw [if_neg (append_ne_nil_of_right_ne_nil lines (cons_ne_nil oldest [])), dropLast_concat,
        getLastD_concat, decide_eq_true ⟨hodd, holdest⟩, hnone, pieces_of_no_line hnone]
      rfl
    · rw [length_kept_alternate, length_append, length_singleton]

theorem found_eq_nonempty
    (h : ∀ count, b.getLastDelimitedStrings delimiter count = lastLines delimiter count b.get) :
    found delimiter b.contents.1 b.contents.2 = nonempty ((b.marked delimiter).map (·.2)) := by
  have hall := h (max (found delimiter b.contents.1 b.contents.2).length (nonempty (pieces delimiter b.get).1).length)
  rw [getLastDelimitedStrings_eq, lastLines, take_of_length_le (Nat.le_max_left _ _),
    take_of_length_le (Nat.le_max_right _ _)] at hall
  rw [map_marked]
  exact reverse_injective hall

theorem lastLines_of_clean (h : b.Clean delimiter count) :
    b.getLastDelimitedStrings delimiter count = lastLines delimiter count b.get := by
  rw [getLastDelimitedStrings_eq, lastLines, ← map_marked, ← take_kept_of_agrees h.1]
  congr 1
  by_cases hcut : b.CutAtWrap delimiter
  · obtain ⟨lines, oldest, hfound, hmarked, hlen⟩ := found_cut hcut
    have hle := h.2 hcut
    rw [hfound, hmarked, kept_append, take_append_of_le_length (by omega),
      take_append_of_le_length (by omega)]
  · rw [found_eq hcut]

/-- The last lines are found, whatever their number, if and only if the lines are alternately not
empty and empty, as far as they are looked at, and none is cut at the wrap. -/
theorem last_lines_found_iff (b : RingBuffer) (delimiter : UInt8) :
    ((∀ count, b.getLastDelimitedStrings delimiter count = lastLines delimiter count b.get) ↔
        ∀ count, b.Clean delimiter count) ∧
      ∀ count, b.Clean delimiter count →
        b.getLastDelimitedStrings delimiter count = lastLines delimiter count b.get := by
  refine ⟨⟨?_, fun h count => lastLines_of_clean (h count)⟩, fun count => lastLines_of_clean⟩
  intro h
  have hall := found_eq_nonempty h
  by_cases hcut : b.CutAtWrap delimiter
  · obtain ⟨lines, oldest, hfound, hmarked, -⟩ := found_cut hcut
    have hne : b.contents.1 ++ oldest ≠ [] := append_ne_nil_of_left_ne_nil hcut.2.2.2 oldest
    have hkept : nonempty [b.contents.1 ++ oldest] = [b.contents.1 ++ oldest] := by
      rw [nonempty_cons, if_neg hne]
      rfl
    rw [hfound, hmarked, map_append, nonempty, filter_append] at hall
    change _ = _ ++ nonempty [b.contents.1 ++ oldest] at hall
    rw [hkept] at hall
    have hlast := List.cons.inj (append_inj' hall rfl).2
    exact absurd (append_left_eq_self.mp hlast.1.symm) hcut.2.2.2
  · rw [found_eq hcut] at hall
    exact fun count => ⟨agrees_of_kept hall count, fun h => absurd h hcut⟩

/-- Two lines arrive, and the first of them is passed over. -/
theorem line_passed_over : ¬∀ (b : RingBuffer) (delimiter : UInt8) (count : Nat),
    b.getLastDelimitedStrings delimiter count = lastLines delimiter count b.get := by
  intro h
  have := h ((new 16).insert [97, 10, 98, 10]) 10 2
  revert this
  decide

end RingBuffer

end WslPlus.HandleIo
