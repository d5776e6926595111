import Mathlib.Data.List.Nodup
import WslPlus.Paths.Collapse
import WslPlus.Wslc.MountSpec

/-!
# Destinations of mounts

The checks of a list of mounts. Two mounts must not have the same destination. The targets are
compared in a normal form, which a loop over the text of the target builds component by
component.
-/

namespace WslPlus.Wslc.MountSpecs

open List Lexical Paths Paths.Collapse

def slash : UInt8 := 0x2f

def isSlash (c : Char) : Bool := c = '\\' || c = '/'

def isDriveLetter (c : Char) : Bool := ('a' ≤ c && c ≤ 'z') || ('A' ≤ c && c ≤ 'Z')

/-- `is_absolute` of a path of Windows: a drive and a slash, a server, or one of `\\?\`, `\\.\` and
`\??\`, which no further slash follows. -/
def isAbsolute : List Char → Bool
  | c :: d :: rest =>
    if isDriveLetter c && d = ':' then rest.head?.any isSlash
    else
      isSlash c &&
        match rest with
        | e :: f :: rest' =>
          (isSlash f && !rest'.head?.any isSlash && ((isSlash d && (e = '?' || e = '.')) || (d = '?' && e = '?'))) ||
            (isSlash d && !isSlash e)
        | [e] => isSlash d && !isSlash e
        | [] => false
  | _ => false

def isAlphanumeric (c : Char) : Bool := isDriveLetter c || ('0' ≤ c && c ≤ '9')

def isValidNamedVolumeName : List Char → Bool
  | [] => false
  | c :: rest => isAlphanumeric c && rest ≠ [] && rest.all fun d => isAlphanumeric d || d = '_' || d = '.' || d = '-'

def invalid (reason : Reason) : Except MountException Unit :=
  .error (.validation ValidationError.invalidSpecification reason [])

def validateMountSpec (mount : Spec) : Except MountException Unit :=
  if mount.target = [] then invalid Reason.targetRequired
  else if mount.target.head? ≠ some slash then invalid Reason.targetAbsolute
  else if mount.mountType ≠ MountType.tmpfs ∧
      (mount.tmpfsSizeBytes.isSome ∨ mount.tmpfsMode.isSome ∨ mount.tmpfsOptions.isSome) then
    invalid Reason.tmpfsOptionsType
  else if mount.tmpfsSizeBytes.any (· < 0) then invalid Reason.tmpfsSizeNegative
  else
    match mount.mountType with
    | .bind =>
      if mount.source = [] then invalid Reason.sourceRequired
      else if isAbsolute mount.source = false then invalid Reason.bindSourceAbsolute
      else .ok ()
    | .volume =>
      if mount.source ≠ [] ∧ isValidNamedVolumeName mount.source = false then invalid Reason.volumeSourceInvalid
      else .ok ()
    | .tmpfs => if mount.source ≠ [] then invalid Reason.tmpfsSourceUnsupported else .ok ()
    | .other _ => .error (.unsupported .typeUnsupportedGeneric)

def pushComponent (components : List Bytes) (component : Bytes) : List Bytes :=
  if component ≠ [] ∧ component ≠ dot then
    if component = dotDot then if components ≠ [] then components.dropLast else components
    else components ++ [component]
  else components

/-- `find` of a slash from a position on. -/
def findSlash (destination : Bytes) (start : Nat) : Option Nat :=
  ((destination.drop start).idxOf? slash).map (start + ·)

theorem findSlash_lt {destination : Bytes} {start stop : Nat} (h : findSlash destination start = some stop) :
    start ≤ stop ∧ stop < destination.length := by
  obtain ⟨i, hi, rfl⟩ := Option.map_eq_some_iff.mp h
  obtain ⟨hlt, _⟩ := idxOf?_eq_some_iff.mp hi
  rw [List.length_drop] at hlt
  omega

def normalizeLoop (destination : Bytes) (start : Nat) (components : List Bytes) : List Bytes :=
  if start ≤ destination.length then
    match _h : findSlash destination start with
    | none => pushComponent components (destination.drop start)
    | some stop =>
      normalizeLoop destination (stop + 1)
        (pushComponent components ((destination.drop start).take (stop - start)))
  else components
termination_by destination.length + 1 - start
decreasing_by
  have hlt := findSlash_lt _h
  omega

def appendComponent (result component : Bytes) : Bytes :=
  (if 1 < result.length then result ++ [slash] else result) ++ component

def normalizeDestination (destination : Bytes) : Bytes :=
  (normalizeLoop destination 0 []).foldl appendComponent [slash]

def validateNext (destinations : List Bytes) (mount : Spec) : Except MountException (List Bytes) := do
  validateMountSpec mount
  let destination := normalizeDestination mount.target
  if destination ∈ destinations then
    .error (.validation ValidationError.duplicateDestination (.duplicateMountDestination destination) destination)
  else .ok (destination :: destinations)

def validateMountCollection (mounts : List Spec) : Except MountException Unit := do
  let _ ← mounts.foldlM validateNext []
  return ()

def resolved (path : Bytes) : List Bytes := resolve ((path.splitOn slash).map moveOf)

structure Canonical (path : Bytes) : Prop where
  absolute : path.head? = some slash
  components : path = [slash] ∨ ∀ component ∈ (path.drop 1).splitOn slash,
    component ≠ [] ∧ component ≠ dot ∧ component ≠ dotDot
  trailing : path = [slash] ∨ path.getLast? ≠ some slash

theorem pushComponent_eq (components : List Bytes) (component : Bytes) :
    pushComponent components component = clamped components (moveOf component) := by
  unfold pushComponent moveOf
  by_cases hup : component = dotDot
  · subst hup
    rw [if_pos (by decide), if_pos rfl, if_pos rfl]
    cases components with
    | nil => rfl
    | cons first rest => rfl
  · rw [if_neg hup, if_neg hup]
    by_cases hskip : component = [] ∨ component = dot
    · rw [if_pos hskip, if_neg (by tauto)]
      rfl
    · rw [if_neg hskip, if_pos (by tauto)]
      rfl

theorem splitOn_findSlash {destination : Bytes} {start stop : Nat}
    (h : findSlash destination start = some stop) :
    (destination.drop start).splitOn slash =
      (destination.drop start).take (stop - start) :: (destination.drop (stop + 1)).splitOn slash := by
  obtain ⟨i, hi, rfl⟩ := Option.map_eq_some_iff.mp h
  obtain ⟨hlt, hget, hbefore⟩ := idxOf?_eq_some_iff.mp hi
  have hnot : slash ∉ (destination.drop start).take i := by
    intro hmem
    obtain ⟨j, hj, hslash⟩ := mem_take_iff_getElem.mp hmem
    exact hbefore j (by omega) hslash
  have hsplit : destination.drop start =
      (destination.drop start).take i ++ slash :: (destination.drop start).drop (i + 1) := by
    have hrest := drop_eq_getElem_cons hlt
    rw [hget] at hrest
    rw [← hrest, take_append_drop]
  rw [Nat.add_sub_cancel_left]
  nth_rewrite 1 [hsplit]
  rw [splitOn_append_cons_self_of_not_mem hnot, drop_drop]
  rfl

theorem normalizeLoop_eq (destination : Bytes) (start : Nat) (components : List Bytes)
    (h : start ≤ destination.length) :
    normalizeLoop destination start components =
      (((destination.drop start).splitOn slash).map moveOf).foldl clamped components := by
  fun_induction normalizeLoop destination start components with
  | case1 start components _ hfind =>
    have hnot : slash ∉ destination.drop start := by
      rw [← idxOf?_eq_none_iff]
      exact Option.map_eq_none_iff.mp hfind
    rw [splitOn_eq_singleton hnot, pushComponent_eq]
    rfl
  | case2 start components _ stop hfind ih =>
    have hlt := findSlash_lt hfind
    rw [ih (by omega), splitOn_findSlash hfind, map_cons, foldl_cons, pushComponent_eq]
  | case3 start components hstart => exact absurd h hstart

theorem mem_resolved {path name : Bytes} (h : name ∈ resolved path) :
    name ≠ [] ∧ name ≠ dot ∧ name ≠ dotDot ∧ slash ∉ name := by
  rcases mem_foldl_clamped h with hnil | hdown
  · exact absurd hnil not_mem_nil
  · obtain ⟨component, hcomponent, hmove⟩ := mem_map.mp hdown
    unfold moveOf at hmove
    split at hmove
    · cases hmove
    split at hmove
    · cases hmove
    · rename_i hup hskip
      cases hmove
      rw [not_or] at hskip
      exact ⟨hskip.1, hskip.2, hup, (mem_splitOn hcomponent).1⟩

variable {names : List Bytes}

theorem appendComponent_joined (h : ∀ name ∈ names, name ≠ []) (result : Bytes)
    (hres : 1 < result.length) : names.foldl appendComponent result = result ++ joined slash names := by
  induction names generalizing result with
  | nil => exact (append_nil result).symm
  | cons name names ih =>
    obtain ⟨hname, hnames⟩ := forall_mem_cons.mp h
    rw [foldl_cons, appendComponent, if_pos hres, ih hnames _ (by simp; omega), joined_cons]
    simp

theorem foldl_appendComponent (h : ∀ name ∈ names, name ≠ []) :
    names.foldl appendComponent [slash] = pathOf slash names := by
  cases names with
  | nil => rfl
  | cons name names =>
    obtain ⟨hname, hnames⟩ := forall_mem_cons.mp h
    have hlen := length_pos_iff.mpr hname
    have hfirst : appendComponent [slash] name = slash :: name := rfl
    rw [foldl_cons, hfirst, appendComponent_joined hnames _ (by rw [length_cons]; omega), pathOf,
      if_neg (cons_ne_nil name names), joined_cons]

theorem normalizeDestination_eq (destination : Bytes) :
    normalizeDestination destination = pathOf slash (resolved destination) := by
  have hloop := normalizeLoop_eq destination 0 [] (Nat.zero_le _)
  rw [drop_zero] at hloop
  rw [normalizeDestination, hloop]
  exact foldl_appendComponent fun name hname => (mem_resolved hname).1

theorem resolved_pathOf (h : ∀ name ∈ names, name ≠ [] ∧ name ≠ dot ∧ name ≠ dotDot ∧ slash ∉ name) :
    resolved (pathOf slash names) = names := by
  unfold pathOf
  split
  · rename_i hnil
    rw [hnil]
    decide
  · have hsplit := splitOn_joined (not_mem_nil (a := slash)) fun name hname => (h name hname).2.2.2
    rw [nil_append] at hsplit
    have hmoves : names.map moveOf = names.map Move.down := by
      apply map_congr_left
      intro name hname
      obtain ⟨hempty, hdot, hup, _⟩ := h name hname
      rw [moveOf, if_neg hup, if_neg (not_or.mpr ⟨hempty, hdot⟩)]
    rw [resolved, hsplit, map_cons, hmoves]
    exact foldl_clamped_down names []

theorem getLast?_joined (hne : names ≠ []) (h : ∀ name ∈ names, name ≠ [] ∧ slash ∉ name) :
    (joined slash names).getLast? ≠ some slash := by
  obtain ⟨before, last, rfl⟩ := (eq_nil_or_concat' names).resolve_left hne
  obtain ⟨hempty, hslash⟩ := h last mem_concat_self
  obtain ⟨c, hc⟩ := Option.isSome_iff_exists.mp (getLast?_isSome.mpr hempty)
  have hlast : (joined slash (before ++ [last])).getLast? = some c := by
    rw [joined, flatMap_append, flatMap_singleton, append_cons, getLast?_append, hc]
    rfl
  rw [hlast]
  intro heq
  cases heq
  exact hslash (mem_of_getLast? hc)

theorem canonical_pathOf (h : ∀ name ∈ names, name ≠ [] ∧ name ≠ dot ∧ name ≠ dotDot ∧ slash ∉ name) :
    Canonical (pathOf slash names) := by
  cases names with
  | nil => exact ⟨rfl, .inl rfl, .inl rfl⟩
  | cons name names =>
    obtain ⟨hname, hnames⟩ := forall_mem_cons.mp h
    have hpath : pathOf slash (name :: names) = slash :: (name ++ joined slash names) := by
      rw [pathOf, if_neg (cons_ne_nil name names), joined_cons, cons_append]
    rw [hpath]
    refine ⟨rfl, .inr ?_, .inr ?_⟩
    · rw [drop_one, tail_cons, splitOn_joined hname.2.2.2 fun other hother => (hnames other hother).2.2.2]
      intro component hcomponent
      obtain ⟨hempty, hdot, hup, _⟩ := h component hcomponent
      exact ⟨hempty, hdot, hup⟩
    · rw [← hpath, pathOf, if_neg (cons_ne_nil name names)]
      apply getLast?_joined (cons_ne_nil name names)
      exact fun other hother => ⟨(h other hother).1, (h other hother).2.2.2⟩

theorem pathOf_injective {names names' : List Bytes}
    (h : ∀ name ∈ names, name ≠ [] ∧ name ≠ dot ∧ name ≠ dotDot ∧ slash ∉ name)
    (h' : ∀ name ∈ names', name ≠ [] ∧ name ≠ dot ∧ name ≠ dotDot ∧ slash ∉ name)
    (heq : pathOf slash names = pathOf slash names') : names = names' := by
  rw [← resolved_pathOf h, heq, resolved_pathOf h']

theorem normalizeDestination_eq_iff (target target' : Bytes) :
    normalizeDestination target = normalizeDestination target' ↔ resolved target = resolved target' := by
  rw [normalizeDestination_eq, normalizeDestination_eq]
  constructor
  · intro heq
    exact pathOf_injective (fun _ => mem_resolved) (fun _ => mem_resolved) heq
  · intro heq
    rw [heq]

theorem validateNext_eq {mount : Spec} (h : validateMountSpec mount = .ok ()) (destinations : List Bytes) :
    validateNext destinations mount =
      if normalizeDestination mount.target ∈ destinations then
        .error (.validation ValidationError.duplicateDestination
          (.duplicateMountDestination (normalizeDestination mount.target)) (normalizeDestination mount.target))
      else .ok (normalizeDestination mount.target :: destinations) := by
  unfold validateNext
  rw [h]
  rfl

theorem foldlM_validateNext {mounts : List Spec} (h : ∀ mount ∈ mounts, validateMountSpec mount = .ok ())
    (destinations : List Bytes) (hnodup : destinations.Nodup) :
    (∃ result, mounts.foldlM validateNext destinations = .ok result) ↔
      ((mounts.map fun mount => normalizeDestination mount.target) ++ destinations).Nodup := by
  induction mounts generalizing destinations with
  | nil => exact ⟨fun _ => hnodup, fun _ => ⟨destinations, rfl⟩⟩
  | cons mount mounts ih =>
    obtain ⟨hmount, hmounts⟩ := forall_mem_cons.mp h
    rw [foldlM_cons, validateNext_eq hmount, map_cons, cons_append, ← nodup_middle]
    split
    · rename_i hmem
      constructor
      · rintro ⟨result, hres⟩
        cases hres
      · intro hall
        have hsecond := (nodup_append.mp hall).2.1
        exact absurd hmem (nodup_cons.mp hsecond).1
    · rename_i hmem
      exact ih hmounts (normalizeDestination mount.target :: destinations) (nodup_cons.mpr ⟨hmem, hnodup⟩)

theorem validateMountCollection_ok_iff (mounts : List Spec) :
    validateMountCollection mounts = .ok () ↔ ∃ result, mounts.foldlM validateNext [] = .ok result := by
  unfold validateMountCollection
  cases mounts.foldlM validateNext [] with
  | error e =>
    constructor
    · intro h
      cases h
    · rintro ⟨result, h⟩
      cases h
  | ok result => exact ⟨fun _ => ⟨result, rfl⟩, fun _ => rfl⟩

/-- Mounts that are valid on their own are valid together if and only if no two targets denote the
same path, and the normal form of a target is the canonical form of the path that it denotes. -/
theorem destinations_resolved {mounts : List Spec} (h : ∀ mount ∈ mounts, validateMountSpec mount = .ok ()) :
    (validateMountCollection mounts = .ok () ↔ (mounts.map fun mount => resolved mount.target).Nodup) ∧
      ∀ destination : Bytes,
        normalizeDestination destination = pathOf slash (resolved destination) ∧
        resolved (normalizeDestination destination) = resolved destination ∧
        Canonical (normalizeDestination destination) ∧
        normalizeDestination (normalizeDestination destination) = normalizeDestination destination := by
  constructor
  · rw [validateMountCollection_ok_iff, foldlM_validateNext h [] nodup_nil, append_nil, List.Nodup,
      List.Nodup, pairwise_map, pairwise_map]
    simp only [ne_eq, normalizeDestination_eq_iff]
  · intro destination
    have hresolved : resolved (normalizeDestination destination) = resolved destination := by
      rw [normalizeDestination_eq]
      exact resolved_pathOf fun _ => mem_resolved
    refine ⟨normalizeDestination_eq destination, hresolved, ?_, ?_⟩
    · rw [normalizeDestination_eq]
      exact canonical_pathOf fun _ => mem_resolved
    · rw [normalizeDestination_eq_iff]
      exact hresolved

theorem destinations_resolved_parent : let mounts : List Spec :=
      [{ target := [slash, 0x61] }, { target := [slash, 0x62] ++ [slash, 0x2e, 0x2e, slash, 0x61] }]
    (∀ mount ∈ mounts, validateMountSpec mount = .ok ()) ∧ validateMountCollection mounts ≠ .ok () := by
  have hvalid : ∀ mount ∈ [({ target := [slash, 0x61] } : Spec),
      { target := [slash, 0x62] ++ [slash, 0x2e, 0x2e, slash, 0x61] }], validateMountSpec mount = .ok () := by
    decide
  refine ⟨hvalid, ?_⟩
  rw [Ne, (destinations_resolved hvalid).1]
  decide

theorem valid_of_foldlM {mounts : List Spec} {destinations result : List Bytes}
    (h : mounts.foldlM validateNext destinations = .ok result) : ∀ mount ∈ mounts, validateMountSpec mount = .ok () := by
  induction mounts generalizing destinations with
  | nil => simp
  | cons mount mounts ih =>
    rw [foldlM_cons] at h
    cases hmount : validateMountSpec mount with
    | error e =>
      rw [validateNext, hmount] at h
      cases h
    | ok =>
      rw [validateNext_eq hmount] at h
      split at h
      · cases h
      · exact forall_mem_cons.mpr ⟨hmount, ih h⟩

/-- Mounts of a collection that is accepted may be left out and reordered. -/
theorem accepted_collection_perm {mounts kept mounts' : List Spec} (hkept : kept <+ mounts) (hperm : kept ~ mounts')
    (hok : validateMountCollection mounts = .ok ()) : validateMountCollection mounts' = .ok () := by
  rw [validateMountCollection_ok_iff] at hok ⊢
  obtain ⟨result, hfold⟩ := hok
  have hvalid := valid_of_foldlM hfold
  have hnodup := (foldlM_validateNext hvalid [] nodup_nil).mp ⟨result, hfold⟩
  have hvalid' : ∀ mount ∈ mounts', validateMountSpec mount = .ok () :=
    fun mount hmount => hvalid mount (hkept.subset (hperm.mem_iff.mpr hmount))
  rw [append_nil] at hnodup
  rw [foldlM_validateNext hvalid' [] nodup_nil, append_nil]
  exact (hperm.map _).nodup_iff.mp ((hkept.map _).nodup hnodup)

theorem accepted_collection_perm_swap : let mounts : List Spec :=
      [{ target := [slash, 0x61] }, { target := [slash, 0x62] }]
    validateMountCollection mounts.reverse = .ok () := by
  refine accepted_collection_perm (Sublist.refl _) (reverse_perm _).symm ?_
  rw [validateMountCollection_ok_iff, foldlM_validateNext (by decide) [] nodup_nil]
  simp only [map_cons, map_nil, normalizeDestination_eq]
  decide

end WslPlus.Wslc.MountSpecs
