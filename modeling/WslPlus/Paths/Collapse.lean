import WslPlus.Lib.Lexical
import WslPlus.Paths.WslPath

/-!
# What collapsing leaves of a path

`CollapsePath` goes from the last segment of a path to the first and counts the `..` that
still wait for a segment. The segments that remain should be those of a walk from the first
segment on. They are, unless a `.` or an empty segment is met while a `..` waits: it is taken
for the segment that the `..` cancels.
-/

namespace WslPlus.Paths.Collapse

open List Option Lexical

def moveOf (segment : Bytes) : Move Bytes :=
  if segment = dotDot then .up else if segment = [] ∨ segment = dot then .stay else .down segment

def isName (segment : Bytes) : Bool := segment ≠ dotDot && segment ≠ [] && segment ≠ dot

def remaining (separator : UInt8) (path : Bytes) : Option (List Bytes) :=
  resolveWithin (((path.drop 1).splitOn separator).map moveOf)

def pathOf (separator : UInt8) (names : List Bytes) : Bytes :=
  if names = [] then [separator] else joined separator names

def components (separator : UInt8) (path : Bytes) : List Bytes := (path.splitOn separator).filter (· ≠ [])

def upCount (segments : List Bytes) : Nat := segments.countP (· = dotDot)

def otherCount (segments : List Bytes) : Nat := segments.countP (· ≠ dotDot)

/-- The segments start with more `..` than other segments. -/
def Unmatched (segments : List Bytes) : Prop :=
  ∃ before after, segments = before ++ after ∧ otherCount before < upCount before

/-- No `.` and no empty segment has more `..` than other segments right behind it. -/
def Undisturbed (segments : List Bytes) : Prop :=
  ∀ before segment after, segments = before ++ segment :: after → segment = [] ∨ segment = dot → ¬ Unmatched after

def Closed (segments : List Bytes) : Prop :=
  segments.getLast?.any isName = true ∨ segments.countP isName = upCount segments

def collapse (segments : List Bytes) : Collapse :=
  segments.foldr (fun segment s => collapseStep s segment) ⟨0, []⟩

theorem collapsePath_absolute (separator : UInt8) (rest : Bytes) :
    collapsePath separator (separator :: rest) =
      if (collapse (rest.splitOn separator)).removeSegmentCount = 0 then
        some (joined separator (collapse (rest.splitOn separator)).kept)
      else none := by
  unfold collapsePath collapse
  rw [splitOn_cons_eq_if_modifyHead, if_pos (beq_self_eq_true separator)]
  simp only [foldl_reverse, nil_append]

def pending (segments : List Bytes) : Nat := (collapse segments).removeSegmentCount

theorem pending_cons (segment : Bytes) (segments : List Bytes) :
    pending (segment :: segments) = if segment = dotDot then pending segments + 1 else pending segments - 1 := by
  unfold pending
  rw [collapse, foldr_cons, ← collapse, collapseStep]
  split
  · rfl
  split
  · rename_i hkeep
    rw [hkeep.1]
  · rfl

theorem counts_up (segments : List Bytes) :
    upCount (dotDot :: segments) = upCount segments + 1 ∧ otherCount
      (dotDot :: segments) = otherCount segments := by
  simp [upCount, otherCount]

theorem counts_other {segment : Bytes} (h : segment ≠ dotDot) (segments : List Bytes) :
    upCount (segment :: segments) = upCount segments ∧ otherCount
      (segment :: segments) = otherCount segments + 1 := by
  simp [upCount, otherCount, h]

theorem lt_pending_iff (segments : List Bytes) (n : Nat) :
    n < pending segments ↔ ∃ before after, segments = before ++ after ∧
    otherCount before + n < upCount before := by
  have hnil : ¬ otherCount [] + n < upCount [] := Nat.not_lt_zero _
  induction segments generalizing n with
  | nil =>
    constructor
    · intro h
      exact absurd h (Nat.not_lt_zero n)
    · rintro ⟨before, after, heq, hlt⟩
      rw [(append_eq_nil_iff.mp heq.symm).1] at hlt
      exact absurd hlt hnil
  | cons segment segments ih =>
    rw [pending_cons]
    by_cases hup : segment = dotDot
    · subst hup
      rw [if_pos rfl]
      constructor
      · intro h
        cases n with
        | zero => exact ⟨[dotDot], segments, rfl, by decide⟩
        | succ n =>
          obtain ⟨before, after, rfl, hlt⟩ := (ih n (Nat.not_lt_zero _)).mp (by omega)
          refine ⟨dotDot :: before, after, rfl, ?_⟩
          rw [(counts_up before).1, (counts_up before).2]
          omega
      · rintro ⟨before, after, heq, hlt⟩
        cases before with
        | nil => exact absurd hlt hnil
        | cons first before =>
          obtain ⟨rfl, rfl⟩ := List.cons.inj heq
          rw [(counts_up before).1, (counts_up before).2] at hlt
          cases n with
          | zero => exact Nat.succ_pos _
          | succ n =>
            have hless := (ih n (Nat.not_lt_zero _)).mpr ⟨before, after, rfl, by omega⟩
            exact Nat.succ_lt_succ hless
    · rw [if_neg hup]
      have hnext : n < pending segments - 1 ↔ n + 1 < pending segments := by omega
      refine hnext.trans ((ih (n + 1) (Nat.not_lt_zero _)).trans ?_)
      constructor
      · rintro ⟨before, after, rfl, hlt⟩
        refine ⟨segment :: before, after, rfl, ?_⟩
        rw [(counts_other hup before).1, (counts_other hup before).2]
        omega
      · rintro ⟨before, after, heq, hlt⟩
        cases before with
        | nil => exact absurd hlt hnil
        | cons first before =>
          obtain ⟨rfl, rfl⟩ := List.cons.inj heq
          rw [(counts_other hup before).1, (counts_other hup before).2] at hlt
          exact ⟨before, after, rfl, by omega⟩

theorem unmatched_iff (segments : List Bytes) : Unmatched segments ↔ 0 < pending segments :=
  (lt_pending_iff segments 0).symm

theorem collapse_cons (segment : Bytes) (segments : List Bytes) :
    (segment = dotDot ∧ (collapse (segment :: segments)).kept = (collapse segments).kept) ∨
      (isName segment = true ∧ pending segments = 0 ∧
        (collapse (segment :: segments)).kept = segment :: (collapse segments).kept) ∨
      (segment ≠ dotDot ∧ (isName segment = true → 0 < pending segments) ∧
        (collapse (segment :: segments)).kept =
          if (collapse segments).kept = [] then [[]] else (collapse segments).kept) := by
  unfold pending
  rw [collapse, foldr_cons, ← collapse, collapseStep]
  by_cases hup : segment = dotDot
  · exact .inl ⟨hup, by rw [if_pos hup]⟩
  · rw [if_neg hup]
    by_cases hkeep : (collapse segments).removeSegmentCount = 0 ∧ segment ≠ [] ∧ segment ≠ dot
    · rw [if_pos hkeep]
      exact .inr (.inl ⟨by simp [isName, hup, hkeep.2], hkeep.1, rfl⟩)
    · rw [if_neg hkeep]
      refine .inr (.inr ⟨hup, fun hname => ?_, rfl⟩)
      simp only [isName, Bool.and_eq_true, decide_eq_true_eq] at hname
      exact Nat.pos_of_ne_zero fun hzero => hkeep ⟨hzero, hname.1.2, hname.2⟩

def names (segments : List Bytes) : List Bytes := (collapse segments).kept.filter (· ≠ [])

theorem names_cons (segment : Bytes) (segments : List Bytes) :
    names (segment :: segments) =
      if isName segment = true ∧ pending segments = 0 then segment :: names segments else names segments := by
  unfold names
  rcases collapse_cons segment segments with ⟨hup, hkept⟩ | ⟨hname, hzero, hkept⟩ | ⟨hup, hpos, hkept⟩
  · rw [hkept, if_neg]
    rintro ⟨hname, -⟩
    simp [isName, hup] at hname
  · rw [hkept, if_pos ⟨hname, hzero⟩, filter_cons_of_pos]
    simp only [isName, Bool.and_eq_true, decide_eq_true_eq] at hname
    simpa using hname.1.2
  · have hnot : ¬ (isName segment = true ∧ pending segments = 0) := by
      rintro ⟨hname, hzero⟩
      exact absurd hzero (Nat.pos_iff_ne_zero.mp (hpos hname))
    rw [if_neg hnot, hkept]
    by_cases hnil : (collapse segments).kept = []
    · rw [if_pos hnil, hnil]
      rfl
    · rw [if_neg hnil]

/-- The segments that are met while a `..` waits but name nothing. -/
def disturbances : List Bytes → Nat
  | [] => 0
  | segment :: segments =>
    disturbances segments + if (segment = [] ∨ segment = dot) ∧ 0 < pending segments then 1 else 0

theorem disturbances_eq_zero_iff (segments : List Bytes) : disturbances segments = 0 ↔
    Undisturbed segments := by
  induction segments with
  | nil =>
    refine ⟨fun _ before segment after heq => ?_, fun _ => rfl⟩
    exact absurd heq.symm (by simp)
  | cons first segments ih =>
    rw [disturbances, Nat.add_eq_zero_iff, ih]
    constructor
    · rintro ⟨hrest, hfirst⟩ before segment after heq hskip
      cases before with
      | nil =>
        obtain ⟨rfl, rfl⟩ := List.cons.inj heq
        rw [unmatched_iff]
        intro hpos
        rw [if_pos ⟨hskip, hpos⟩] at hfirst
        exact absurd hfirst Nat.one_ne_zero
      | cons other before =>
        obtain ⟨-, hrest'⟩ := List.cons.inj heq
        exact hrest before segment after hrest' hskip
    · intro h
      refine ⟨fun before segment after heq => h (first :: before) segment after (congrArg (first :: ·) heq), ?_⟩
      rw [if_neg]
      rintro ⟨hskip, hpos⟩
      exact h [] first segments rfl hskip ((unmatched_iff segments).mpr hpos)

theorem isName_iff (segment : Bytes) : isName segment = true ↔ segment ≠ dotDot ∧ segment ≠ [] ∧
    segment ≠ dot := by
  simp [isName, and_assoc]

theorem length_names (segments : List Bytes) :
    (names segments).length + upCount segments =
      segments.countP isName + disturbances segments + pending segments := by
  induction segments with
  | nil => rfl
  | cons segment segments ih =>
    rw [names_cons, pending_cons, disturbances, countP_cons]
    by_cases hup : segment = dotDot
    · subst hup
      have hname : isName dotDot = false := by decide
      have hskip : ¬ ((dotDot = [] ∨ dotDot = dot) ∧ 0 < pending segments) := by simp [dotDot, dot]
      rw [hname, (counts_up segments).1, if_neg (by simp), if_neg (by simp), if_pos rfl, if_neg hskip]
      omega
    · rw [(counts_other hup segments).1, if_neg hup]
      by_cases hname : isName segment = true
      · have hskip : ¬ ((segment = [] ∨ segment = dot) ∧ 0 < pending segments) := by
          rintro ⟨hskip, -⟩
          have hparts := (isName_iff segment).mp hname
          exact hskip.elim hparts.2.1 hparts.2.2
        rw [if_pos hname, if_neg hskip]
        by_cases hzero : pending segments = 0
        · rw [if_pos ⟨hname, hzero⟩, length_cons]
          omega
        · rw [if_neg fun h => hzero h.2]
          omega
      · have hskip : segment = [] ∨ segment = dot := by
          rw [isName_iff] at hname
          tauto
        rw [if_neg hname, if_neg fun h => hname h.1]
        by_cases hzero : pending segments = 0
        · rw [if_neg fun h => absurd h.2 (by omega)]
          omega
        · rw [if_pos ⟨hskip, Nat.pos_of_ne_zero hzero⟩]
          omega

variable {segments : List Bytes}

theorem foldlM_moves (h : Undisturbed segments) (position : List Bytes) :
    (segments.map moveOf).foldlM within position =
      if pending segments ≤ position.length then
        some (position.take (position.length - pending segments) ++ names segments)
      else none := by
  induction segments generalizing position with
  | nil =>
    have hzero : pending [] = 0 := rfl
    rw [hzero, if_pos (Nat.zero_le _), Nat.sub_zero, take_length]
    exact congrArg some (append_nil position).symm
  | cons segment segments ih =>
    have hrest : Undisturbed segments := fun before other after heq =>
      h (segment :: before) other after (congrArg (segment :: ·) heq)
    rw [map_cons, foldlM_cons, names_cons, pending_cons]
    by_cases hup : segment = dotDot
    · subst hup
      have hmove : moveOf dotDot = .up := if_pos rfl
      have hname : ¬ (isName dotDot = true ∧ pending segments = 0) := by simp [isName]
      rw [hmove, if_pos rfl, if_neg hname]
      rcases eq_nil_or_concat position with rfl | ⟨outer, last, rfl⟩
      · rw [if_neg (by simp)]
        rfl
      · have hstep : within (outer ++ [last]) .up = some outer := by simp [within]
        rw [concat_eq_append, hstep, bind_eq_bind, bind_some, ih hrest, length_append,
          length_singleton, Nat.add_sub_add_right, take_append_of_le_length (Nat.sub_le _ _)]
        simp only [Nat.add_le_add_iff_right]
    · rw [if_neg hup]
      by_cases hname : isName segment = true
      · have hparts := (isName_iff segment).mp hname
        have hmove : moveOf segment = .down segment := by
          rw [moveOf, if_neg hup, if_neg]
          exact fun hskip => hskip.elim hparts.2.1 hparts.2.2
        rw [hmove, within, bind_eq_bind, bind_some, ih hrest, length_append, length_singleton]
        by_cases hzero : pending segments = 0
        · have hnames : (if isName segment = true ∧ pending segments = 0 then segment :: names segments
              else names segments) = segment :: names segments := if_pos ⟨hname, hzero⟩
          have htake : (position ++ [segment]).take (position.length + 1) = position ++ [segment] :=
            take_of_length_le (by simp)
          rw [hnames, hzero, if_pos (Nat.zero_le _), if_pos (Nat.zero_le _), Nat.sub_zero, Nat.zero_sub, Nat.sub_zero,
            take_length, htake, append_assoc]
          rfl
        · have hnames : (if isName segment = true ∧ pending segments = 0 then segment :: names segments
              else names segments) = names segments := if_neg fun h => hzero h.2
          have hcount : position.length + 1 - pending segments = position.length - (pending segments - 1) := by omega
          have hle : pending segments ≤ position.length + 1 ↔ pending segments - 1 ≤ position.length := by omega
          rw [hnames, hcount, take_append_of_le_length (Nat.sub_le _ _)]
          simp only [hle]
      · have hskip : segment = [] ∨ segment = dot := by
          rw [isName_iff] at hname
          tauto
        have hmove : moveOf segment = .stay := by rw [moveOf, if_neg hup, if_pos hskip]
        have hzero : pending segments = 0 := by
          have hmatch := h [] segment segments rfl hskip
          rw [unmatched_iff] at hmatch
          omega
        have hnames : (if isName segment = true ∧ pending segments = 0 then segment :: names segments
            else names segments) = names segments := if_neg fun h => hname h.1
        rw [hnames, hmove, within, bind_eq_bind, bind_some, ih hrest, hzero]

theorem pending_le_of_foldlM {segments position result : List Bytes}
    (h : (segments.map moveOf).foldlM within position = some result) : pending segments ≤ position.length := by
  induction segments generalizing position with
  | nil => exact Nat.zero_le _
  | cons segment segments ih =>
    rw [map_cons, foldlM_cons] at h
    obtain ⟨next, hstep, hrest⟩ := bind_eq_some_iff.mp h
    have hle := ih hrest
    rw [pending_cons]
    by_cases hup : segment = dotDot
    · rw [if_pos hup]
      rw [moveOf, if_pos hup, within] at hstep
      split at hstep
      · cases hstep
      · rename_i hne
        cases hstep
        have hpos := length_pos_iff.mpr hne
        rw [length_dropLast] at hle
        omega
    · rw [if_neg hup]
      rw [moveOf, if_neg hup] at hstep
      split at hstep
      · cases hstep
        omega
      · cases hstep
        rw [length_append, length_singleton] at hle
        omega

theorem counts_moves (segments : List Bytes) :
    (segments.map moveOf).countP Move.isUp = upCount segments ∧
      (segments.map moveOf).countP Move.isDown = segments.countP isName := by
  have hup : ∀ segment, (moveOf segment).isUp = decide (segment = dotDot) := by
    intro segment
    unfold moveOf
    split
    · simp_all [Move.isUp]
    split <;> simp_all [Move.isUp]
  have hdown : ∀ segment, (moveOf segment).isDown = isName segment := by
    intro segment
    unfold moveOf isName
    split
    · simp_all [Move.isDown]
    split
    · rename_i hskip
      rcases hskip with hskip | hskip <;> simp [Move.isDown, hskip]
    · simp_all [Move.isDown]
  constructor
  · rw [countP_map, upCount]
    exact countP_congr fun segment _ => by simp [hup]
  · rw [countP_map]
    exact countP_congr fun segment _ => by simp [hdown]

theorem resolveWithin_eq_iff (h : ¬ Unmatched segments) :
    resolveWithin (segments.map moveOf) = some (names segments) ↔ Undisturbed segments := by
  have hzero : pending segments = 0 := by
    rw [unmatched_iff] at h
    omega
  constructor
  · intro heq
    have hwalk := length_foldlM_within heq
    have hkept := length_names segments
    rw [(counts_moves segments).1, (counts_moves segments).2, length_nil] at hwalk
    rw [← disturbances_eq_zero_iff]
    omega
  · intro hclear
    rw [resolveWithin, foldlM_moves hclear, hzero, if_pos (Nat.zero_le _)]
    rfl

variable {separator : UInt8}

theorem splitOn_joined {text : Bytes} (htext : separator ∉ text)
    (h : ∀ segment ∈ segments, separator ∉ segment) :
    (text ++ joined separator segments).splitOn separator = text :: segments := by
  induction segments generalizing text with
  | nil =>
    rw [joined_nil, append_nil]
    exact splitOn_eq_singleton htext
  | cons segment segments ih =>
    obtain ⟨hfirst, htail⟩ := forall_mem_cons.mp h
    rw [joined_cons, cons_append, splitOn_append_cons_self_of_not_mem htext, ih hfirst htail]

theorem components_joined (h : ∀ segment ∈ segments, separator ∉ segment) :
    components separator (joined separator segments) = segments.filter (· ≠ []) := by
  have hsplit := splitOn_joined (not_mem_nil (a := separator)) h
  rw [nil_append] at hsplit
  rw [components, hsplit]
  rfl

theorem separator_not_mem_kept (separator : UInt8) (rest : Bytes) :
    ∀ segment ∈ (collapse (rest.splitOn separator)).kept, separator ∉ segment := by
  have htidy : ((rest.splitOn separator).reverse.foldl collapseStep ⟨0, []⟩).Tidy separator rest := by
    apply tidy_collapse
    · intro segment hseg
      exact mem_reverse.mp hseg
    · exact ⟨by simp, by simp, by simp⟩
  rw [foldl_reverse] at htidy
  exact htidy.noSeparator

theorem all_up_pending (h : ∀ segment ∈ segments, segment = dotDot) : pending segments = segments.length := by
  induction segments with
  | nil => rfl
  | cons segment segments ih =>
    obtain ⟨hfirst, htail⟩ := forall_mem_cons.mp h
    rw [pending_cons, if_pos hfirst, ih htail, length_cons]

theorem kept_eq (hne : segments ≠ []) :
    (segments.getLast?.any isName = true ∧ (collapse segments).kept = names segments ∧ names segments ≠ []) ∨
      (segments.getLast?.any isName = false ∧ ((collapse segments).kept = names segments ++ [[]] ∨
          ((collapse segments).kept = [] ∧ ∀ segment ∈ segments, segment = dotDot))) := by
  induction segments with
  | nil => exact absurd rfl hne
  | cons segment segments ih =>
    have hcons := names_cons segment segments
    by_cases hnonempty : segments = []
    · subst hnonempty
      rcases collapse_cons segment [] with ⟨hup, hkept⟩ | ⟨hname, hzero, hkept⟩ | ⟨hup, hpos, hkept⟩
      · subst hup
        exact .inr ⟨by decide, .inr ⟨hkept, by simp⟩⟩
      · rw [if_pos ⟨hname, hzero⟩] at hcons
        exact .inl ⟨by simpa using hname, hkept.trans hcons.symm, by simp [hcons]⟩
      · have hname : ¬ isName segment = true := fun hname => absurd (hpos hname) (by decide)
        rw [if_neg fun h => hname h.1] at hcons
        exact .inr ⟨by simpa using hname, .inl (by rw [hkept, hcons]; rfl)⟩
    · have hlast : (segment :: segments).getLast? = segments.getLast? := by
        obtain ⟨next, rest, rfl⟩ := exists_cons_of_ne_nil hnonempty
        exact getLast?_cons_cons
      rw [hlast]
      have hih := ih hnonempty
      rcases collapse_cons segment segments with ⟨hup, hkept⟩ | ⟨hname, hzero, hkept⟩ | ⟨hup, hpos, hkept⟩
      · have hname : ¬ isName segment = true := by
          subst hup
          decide
        rw [if_neg fun h => hname h.1] at hcons
        rw [hkept, hcons]
        rcases hih with hih | ⟨hany, hih | ⟨hnil, hall⟩⟩
        · exact .inl hih
        · exact .inr ⟨hany, .inl hih⟩
        · exact .inr ⟨hany, .inr ⟨hnil, forall_mem_cons.mpr ⟨hup, hall⟩⟩⟩
      · rw [if_pos ⟨hname, hzero⟩] at hcons
        rw [hkept, hcons]
        rcases hih with ⟨hany, hih, -⟩ | ⟨hany, hih | ⟨hnil, hall⟩⟩
        · exact .inl ⟨hany, congrArg (segment :: ·) hih, cons_ne_nil _ _⟩
        · exact .inr ⟨hany, .inl (congrArg (segment :: ·) hih)⟩
        · rw [all_up_pending hall] at hzero
          exact absurd (length_eq_zero_iff.mp hzero) hnonempty
      · have hname : ¬ (isName segment = true ∧ pending segments = 0) := by
          rintro ⟨hname, hzero⟩
          exact absurd hzero (Nat.pos_iff_ne_zero.mp (hpos hname))
        rw [if_neg hname] at hcons
        rw [hkept, hcons]
        rcases hih with ⟨hany, hih, hsome⟩ | ⟨hany, hih | ⟨hnil, hall⟩⟩
        · rw [hih, if_neg hsome]
          exact .inl ⟨hany, rfl, hsome⟩
        · rw [hih, if_neg (by simp)]
          exact .inr ⟨hany, .inl rfl⟩
        · rw [if_pos hnil, names, hnil]
          exact .inr ⟨hany, .inl rfl⟩

variable {rest : Bytes}

theorem kept_of_matched (h : ¬ Unmatched (rest.splitOn separator)) :
    (collapse (rest.splitOn separator)).kept = names (rest.splitOn separator) ++
        (if (rest.splitOn separator).getLast?.any isName = true then [] else [[]]) ∧
      ((rest.splitOn separator).getLast?.any isName = true → names (rest.splitOn separator) ≠ []) := by
  have hne := splitOn_ne_nil separator rest
  have hzero : pending (rest.splitOn separator) = 0 := by
    rw [unmatched_iff] at h
    omega
  rcases kept_eq hne with ⟨hany, hkept, hsome⟩ | ⟨hany, hkept | ⟨-, hall⟩⟩
  · rw [if_pos hany, append_nil]
    exact ⟨hkept, fun _ => hsome⟩
  · rw [hany, if_neg Bool.false_ne_true]
    exact ⟨hkept, fun h => absurd h Bool.false_ne_true⟩
  · rw [all_up_pending hall] at hzero
    exact absurd (length_eq_zero_iff.mp hzero) hne

theorem names_eq_nil_iff (h : ¬ Unmatched segments) (hclear : Undisturbed segments) :
    names segments = [] ↔ segments.countP isName = upCount segments := by
  have hlen := length_names segments
  rw [(disturbances_eq_zero_iff segments).mpr hclear] at hlen
  rw [unmatched_iff] at h
  rw [← length_eq_zero_iff]
  omega

theorem components_pathOf {names : List Bytes} (h : ∀ name ∈ names, name ≠ [] ∧ separator ∉ name) :
    components separator (pathOf separator names) = names := by
  unfold pathOf
  split
  · rename_i hnil
    have hroot : ∀ segment ∈ ([[]] : List Bytes), separator ∉ segment := by simp
    rw [hnil]
    exact components_joined hroot
  · rw [components_joined fun name hname => (h name hname).2]
    exact filter_eq_self.mpr fun name hname => by simpa using (h name hname).1

theorem down_mem_moves {name : Bytes} (h : Move.down name ∈ segments.map moveOf) :
    name ∈ segments ∧ name ≠ [] := by
  obtain ⟨segment, hseg, hmove⟩ := mem_map.mp h
  unfold moveOf at hmove
  split at hmove
  · cases hmove
  split at hmove
  · cases hmove
  · rename_i hskip
    cases hmove
    exact ⟨hseg, fun hnil => hskip (.inl hnil)⟩

theorem eq_names_of_text (h : some (joined separator (collapse (rest.splitOn separator)).kept) =
      (resolveWithin ((rest.splitOn separator).map moveOf)).map (pathOf separator)) :
    resolveWithin ((rest.splitOn separator).map moveOf) = some (names (rest.splitOn separator)) := by
  obtain ⟨result, hres, htext⟩ := map_eq_some_iff.mp h.symm
  have hclean : ∀ name ∈ result, name ≠ [] ∧ separator ∉ name := by
    intro name hname
    rw [← foldl_clamped_of_within hres] at hname
    rcases mem_foldl_clamped hname with hnil | hdown
    · exact absurd hnil not_mem_nil
    · obtain ⟨hseg, hne⟩ := down_mem_moves hdown
      exact ⟨hne, (mem_splitOn hseg).1⟩
  have hnames : names (rest.splitOn separator) = result := by
    rw [← components_pathOf hclean, htext]
    exact (components_joined (separator_not_mem_kept separator rest)).symm
  rw [hres, hnames]

theorem joined_concat_nil (separator : UInt8) (names : List Bytes) :
    joined separator (names ++ [[]]) = joined separator names ++ [separator] := by
  simp [joined]

theorem joined_kept_iff (h : ¬ Unmatched (rest.splitOn separator)) :
    joined separator (collapse (rest.splitOn separator)).kept = pathOf separator
      (names (rest.splitOn separator)) ↔
      (rest.splitOn separator).getLast?.any isName = true ∨ names (rest.splitOn separator) = [] := by
  obtain ⟨hkept, hlast⟩ := kept_of_matched h
  rw [hkept, pathOf]
  by_cases hany : (rest.splitOn separator).getLast?.any isName = true
  · rw [if_pos hany, if_neg (hlast hany), append_nil]
    exact ⟨fun _ => .inl hany, fun _ => rfl⟩
  · rw [if_neg hany, or_iff_right hany, joined_concat_nil]
    constructor
    · intro htext
      by_contra hne
      rw [if_neg hne] at htext
      have hlen := congrArg List.length htext
      simp at hlen
    · intro hnil
      rw [hnil, if_pos rfl]
      rfl

/-- For every absolute path: the segments that remain are those of the walk from the first segment on, or both fail,
exactly if a `..` is left over anyway or none of them meets a `.` or an empty segment. The path is then the one with
these segments exactly if its last segment is kept or nothing remains; otherwise the separator in front of it stays. -/
theorem collapsePath_lexical_iff (separator : UInt8) (rest : Bytes) :
    ((collapsePath separator (separator :: rest)).map (components separator) = remaining separator (separator :: rest) ↔
      Unmatched (rest.splitOn separator) ∨ Undisturbed (rest.splitOn separator)) ∧
    (collapsePath separator (separator :: rest) =
        (remaining separator (separator :: rest)).map (pathOf separator) ↔
      Unmatched (rest.splitOn separator) ∨
        Undisturbed (rest.splitOn separator) ∧ Closed (rest.splitOn separator)) := by
  have hremaining : remaining separator (separator :: rest) = resolveWithin ((rest.splitOn separator).map moveOf) := rfl
  rw [collapsePath_absolute, hremaining]
  by_cases hunmatched : Unmatched (rest.splitOn separator)
  · have hpos := (unmatched_iff _).mp hunmatched
    have hnone : resolveWithin ((rest.splitOn separator).map moveOf) = none := by
      by_contra hsome
      obtain ⟨result, hresult⟩ := ne_none_iff_exists'.mp hsome
      exact absurd (pending_le_of_foldlM hresult) (Nat.not_le_of_gt hpos)
    have hcount : (collapse (rest.splitOn separator)).removeSegmentCount ≠ 0 := Nat.pos_iff_ne_zero.mp hpos
    rw [hnone, if_neg hcount]
    simp [hunmatched]
  · have hzero : (collapse (rest.splitOn separator)).removeSegmentCount = 0 := by
      have hpos := mt (unmatched_iff _).mpr hunmatched
      exact Nat.eq_zero_of_not_pos hpos
    have hcomponents := components_joined (separator_not_mem_kept separator rest)
    rw [if_pos hzero, map_some, hcomponents]
    have hnames : (collapse (rest.splitOn separator)).kept.filter (· ≠ []) = names (rest.splitOn separator) := rfl
    rw [hnames, eq_comm, resolveWithin_eq_iff hunmatched, or_iff_right hunmatched, or_iff_right hunmatched]
    refine ⟨Iff.rfl, ?_⟩
    constructor
    · intro htext
      have hwalk := eq_names_of_text htext
      have hclear := (resolveWithin_eq_iff hunmatched).mp hwalk
      rw [hwalk, map_some, Option.some.injEq, joined_kept_iff hunmatched,
        names_eq_nil_iff hunmatched hclear] at htext
      exact ⟨hclear, htext⟩
    · rintro ⟨hclear, hclosed⟩
      rw [Closed, ← names_eq_nil_iff hunmatched hclear, ← joined_kept_iff hunmatched] at hclosed
      rw [(resolveWithin_eq_iff hunmatched).mpr hclear, map_some, hclosed]

/-- `/a/./..` leaves `/a/`, where nothing remains. -/
theorem collapsePath_cancels_dot :
    collapsePath pathSep [0x2f, 0x61, 0x2f, 0x2e, 0x2f, 0x2e, 0x2e] = some [0x2f, 0x61, 0x2f] ∧
      remaining pathSep [0x2f, 0x61, 0x2f, 0x2e, 0x2f, 0x2e, 0x2e] = some [] ∧
      (collapsePath pathSep [0x2f, 0x61, 0x2f, 0x2e, 0x2f, 0x2e, 0x2e]).map (components pathSep) ≠
        remaining pathSep [0x2f, 0x61, 0x2f, 0x2e, 0x2f, 0x2e, 0x2e] := by
  decide

end WslPlus.Paths.Collapse
