import WslPlus.Cli.ArgumentRendering

/-!
# What the parser has read

After the tokens of some settings the state of the parser is determined by these settings:
the values of the options, the defaults that are still replaceable, and the positional
arguments that have not been filled.
-/

namespace WslPlus.Cli

open List

variable {τ : Type}

def remaining : List (Argument τ) → Nat → List (Argument τ)
  | [], _ => []
  | arg :: slots, n =>
    if arg.limit = .unlimited then arg :: slots
    else
      match n with
      | 0 => arg :: slots
      | n + 1 => remaining slots n

theorem remaining_zero (slots : List (Argument τ)) : remaining slots 0 = slots := by
  cases slots with
  | nil => rfl
  | cons arg slots => exact ite_self _

variable {arg : Argument τ}

theorem remaining_of_unlimited (h : arg.limit = .unlimited) (slots : List (Argument τ)) (n : Nat) :
    remaining (arg :: slots) n = arg :: slots := if_pos h

theorem remaining_of_single (h : arg.limit = .single) (slots : List (Argument τ)) (n : Nat) :
    remaining (arg :: slots) (n + 1) = remaining slots n := by
  rw [remaining, if_neg (by rw [h]; nofun)]

theorem limit_cases (arg : Argument τ) : arg.limit = .single ∨ arg.limit = .unlimited := by
  cases arg.limit with
  | single => exact .inl rfl
  | unlimited => exact .inr rfl

theorem remaining_suffix (slots : List (Argument τ)) (n : Nat) : remaining slots n <:+ slots := by
  induction slots generalizing n with
  | nil => exact suffix_rfl
  | cons arg slots ih =>
    rcases limit_cases arg with h | h
    · cases n with
      | zero => exact ⟨[], by rw [nil_append, remaining_zero]⟩
      | succ n =>
        rw [remaining_of_single h]
        exact (ih n).trans (suffix_cons arg slots)
    · exact ⟨[], by rw [nil_append, remaining_of_unlimited h]⟩

theorem remaining_succ {slots more : List (Argument τ)} {n : Nat} (h : remaining slots n = arg :: more) :
    remaining slots (n + 1) = if arg.limit = .unlimited then arg :: more else more := by
  induction slots generalizing n with
  | nil => cases h
  | cons first slots ih =>
    rcases limit_cases first with hlimit | hlimit
    · rw [remaining_of_single hlimit]
      cases n with
      | zero =>
        rw [remaining_zero] at h
        cases h
        rw [remaining_zero, hlimit]
        rfl
      | succ n =>
        rw [remaining_of_single hlimit] at h
        exact ih h
    · rw [remaining_of_unlimited hlimit] at h
      cases h
      rw [remaining_of_unlimited hlimit, if_pos hlimit]

def Fits (slots : List (Argument τ)) (n : Nat) : Prop :=
  (∃ arg ∈ slots, arg.limit = .unlimited) ∨ n ≤ slots.length

theorem remaining_ne_nil {slots : List (Argument τ)} {n : Nat} (h : Fits slots (n + 1)) :
    remaining slots n ≠ [] := by
  induction slots generalizing n with
  | nil =>
    rcases h with ⟨arg, harg, -⟩ | h
    · cases harg
    · cases h
  | cons first slots ih =>
    rcases limit_cases first with hlimit | hlimit
    · cases n with
      | zero =>
        rw [remaining_zero]
        exact cons_ne_nil _ _
      | succ n =>
        rw [remaining_of_single hlimit]
        apply ih
        rcases h with ⟨arg, harg, hunlimited⟩ | h
        · rcases mem_cons.mp harg with rfl | harg
          · rw [hlimit] at hunlimited
            cases hunlimited
          · exact .inl ⟨arg, harg, hunlimited⟩
        · exact .inr (Nat.le_of_succ_le_succ h)
    · rw [remaining_of_unlimited hlimit]
      exact cons_ne_nil _ _

theorem remaining_length {slots : List (Argument τ)} (h : ∀ arg ∈ slots, arg.limit = .single) :
    remaining slots slots.length = [] := by
  induction slots with
  | nil => rfl
  | cons arg slots ih =>
    rw [length_cons, remaining_of_single (h arg mem_cons_self)]
    exact ih fun arg harg => h arg (mem_cons_of_mem _ harg)

theorem fill_of_unlimited (h : arg.limit = .unlimited) (slots : List (Argument τ))
    (texts : List (List Char)) : fill (arg :: slots) texts = texts.map (arg.type, ·) := by
  cases texts with
  | nil => exact if_pos h
  | cons text texts => exact if_pos h

theorem fill_of_single (h : arg.limit = .single) (slots : List (Argument τ)) (text : List Char)
    (texts : List (List Char)) : fill (arg :: slots) (text :: texts) = (arg.type, text) ::
    fill slots texts := by
  apply if_neg
  rw [h]
  nofun

theorem fill_nil (slots : List (Argument τ)) : fill slots [] = [] := by
  cases slots with
  | nil => rfl
  | cons arg slots => exact ite_self _

theorem fill_append {slots more : List (Argument τ)} {texts : List (List Char)}
    (h : remaining slots texts.length = arg :: more) (text : List Char) :
    fill slots (texts ++ [text]) = fill slots texts ++ [(arg.type, text)] := by
  induction slots generalizing texts with
  | nil => cases h
  | cons first slots ih =>
    rcases limit_cases first with hlimit | hlimit
    · cases texts with
      | nil =>
        rw [length_nil, remaining_zero] at h
        cases h
        rw [nil_append, fill_of_single hlimit, fill_nil, fill_nil]
        rfl
      | cons first' texts =>
        rw [length_cons, remaining_of_single hlimit] at h
        rw [cons_append, fill_of_single hlimit, fill_of_single hlimit, ih h, cons_append]
    · rw [remaining_of_unlimited hlimit] at h
      cases h
      rw [fill_of_unlimited hlimit, fill_of_unlimited hlimit, map_append]
      rfl

section Reached

variable [DecidableEq τ] {T : Table τ} {overridable : List τ} {args : ArgMap τ} {settings : List (Setting τ)}
  {m : Machine τ}

structure Reached (T : Table τ) (overridable : List τ) (args : ArgMap τ) (settings : List (Setting τ))
    (m : Machine τ) : Prop where
  pending : m.pending = none
  options : ∀ arg ∈ T.arguments, arg.isOption = true →
    m.args arg.type = Table.optionValues overridable args settings arg
  slots : ∀ arg ∈ T.arguments, arg.kind = .positional → m.args arg.type = T.slotValues settings arg.type
  forwards : ∀ arg ∈ T.arguments, arg.kind = .forward → m.args arg.type = []
  others : ∀ type, (∀ arg ∈ T.arguments, arg.type ≠ type) → m.args type = args type
  defaults : m.overridable = overridable.filter fun type => valuesFor type settings = []
  suffix : m.search <:+ T.slots
  search : m.search.dropWhile (Machine.full m.args) = remaining T.slots (positionals settings).length
  empty : ∀ arg ∈ remaining T.slots (positionals settings).length, arg.limit = .single → m.args arg.type = []
  anchor : ∀ arg, m.anchor = some arg → T.slots.head? = some arg ∧ m.args arg.type ≠ []
  unanchored : m.anchor = none ↔ positionals settings = []

omit [DecidableEq τ] in
theorem Table.type_ne (T : Table τ) {a b : Argument τ} (ha : a ∈ T.arguments) (hb : b ∈ T.arguments)
    (hne : a ≠ b) :
    a.type ≠ b.type := fun htype => hne (inj_on_of_nodup_map T.types ha hb htype)

theorem valuesFor_append (type : τ) (settings settings' : List (Setting τ)) :
    valuesFor type (settings ++ settings') = valuesFor type settings ++ valuesFor type settings' :=
  filterMap_append

omit [DecidableEq τ] in
theorem positionals_append (settings settings' : List (Setting τ)) :
    positionals (settings ++ settings') = positionals settings ++ positionals settings' := filterMap_append

theorem dropWhile_congr {α : Type} {p q : α → Bool} {l : List α} (h : ∀ a ∈ l, p a = q a) :
    l.dropWhile p = l.dropWhile q := by
  induction l with
  | nil => rfl
  | cons a l ih =>
    rw [dropWhile_cons, dropWhile_cons, h a mem_cons_self,
      ih fun b hb => h b (mem_cons_of_mem _ hb)]

/-- A setting of an option that gives it a value, and nothing to others. -/
structure Sets (s : Setting τ) (arg : Argument τ) (value : Value) : Prop where
  value : s.valueFor arg.type = some value
  others : ∀ type, type ≠ arg.type → s.valueFor type = none
  text : s.text? = none

variable {arg : Argument τ} {s : Setting τ} {value : Value}

theorem Reached.put (h : Reached T overridable args settings m) (hnodup : overridable.Nodup)
    (harg : arg ∈ T.arguments) (hopt : arg.isOption = true) (hs : Sets s arg value) :
    Reached T overridable args (settings ++ [s])
      (m.put arg.type (Table.optionValues overridable args (settings ++ [s]) arg)) := by
  have hpos : positionals (settings ++ [s]) = positionals settings := by
    rw [positionals_append, show positionals [s] = [] from filterMap_cons_none hs.text, append_nil]
  have hvalues : ∀ type, type ≠ arg.type → valuesFor type (settings ++ [s]) = valuesFor type settings := by
    intro type htype
    rw [valuesFor_append, show valuesFor type [s] = [] from filterMap_cons_none (hs.others type htype),
      append_nil]
  have hset : valuesFor arg.type (settings ++ [s]) ≠ [] := by
    rw [valuesFor_append, show valuesFor arg.type [s] = [value] from filterMap_cons_some hs.value]
    exact append_ne_nil_of_right_ne_nil _ (cons_ne_nil _ _)
  have hframe : ∀ type, type ≠ arg.type →
      (m.put arg.type (Table.optionValues overridable args (settings ++ [s]) arg)).args type = m.args type :=
    fun type htype => Function.update_of_ne htype _ _
  have hother : ∀ a ∈ T.arguments, a.isOption ≠ true → a.type ≠ arg.type := by
    intro a ha hnot
    apply T.type_ne ha harg
    rintro rfl
    exact hnot hopt
  have hslot : ∀ a ∈ T.slots, a.type ≠ arg.type := by
    intro a ha
    obtain ⟨ha, hkind⟩ := mem_filter.mp ha
    apply hother a ha
    rw [Argument.isOption, of_decide_eq_true hkind]
    exact Bool.false_ne_true
  refine { h with options := ?_, slots := ?_, forwards := ?_, others := ?_, defaults := ?_, search := ?_,
                  empty := ?_, anchor := ?_, unanchored := ?_ }
  · intro a ha haoption
    by_cases hsame : a = arg
    · rw [hsame]
      exact Function.update_self _ _ _
    · have htype := T.type_ne ha harg hsame
      rw [hframe a.type htype, h.options a ha haoption, Table.optionValues, Table.optionValues, hvalues a.type htype]
  · intro a ha hkind
    rw [hframe a.type (hother a ha (by rw [Argument.isOption, hkind]; exact Bool.false_ne_true)), h.slots a ha hkind, Table.slotValues,
      Table.slotValues, hpos]
  · intro a ha hkind
    rw [hframe a.type (hother a ha (by rw [Argument.isOption, hkind]; exact Bool.false_ne_true))]
    exact h.forwards a ha hkind
  · intro type htype
    rw [hframe type fun heq => htype arg harg heq.symm]
    exact h.others type htype
  · change m.overridable.erase arg.type = _
    rw [h.defaults, (hnodup.filter _).erase_eq_filter, filter_filter]
    apply filter_congr
    intro type _
    by_cases htype : type = arg.type
    · subst htype
      simp [hset]
    · simp [htype, hvalues type htype]
  · rw [hpos, ← h.search]
    apply dropWhile_congr
    intro a ha
    rw [Machine.full, Machine.full, ArgMap.count, ArgMap.count, hframe a.type (hslot a (h.suffix.subset ha))]
  · intro a ha hlimit
    rw [hpos] at ha
    rw [hframe a.type (hslot a ((remaining_suffix _ _).subset ha))]
    exact h.empty a ha hlimit
  · intro a ha
    obtain ⟨hhead, hne⟩ := h.anchor a ha
    rw [hframe a.type (hslot a (mem_of_head? hhead))]
    exact ⟨hhead, hne⟩
  · rw [hpos]
    exact h.unanchored

theorem valuesFor_of_sets (hs : Sets s arg value)
    (settings : List (Setting τ)) :
    valuesFor arg.type (settings ++ [s]) = valuesFor arg.type settings ++ [value] := by
  rw [valuesFor_append, show valuesFor arg.type [s] = [value] from filterMap_cons_some hs.value]

theorem optionValues_last (hs : Sets s arg value) (hlast : ¬ (arg.kind = .value ∧ arg.limit = .unlimited)) :
    Table.optionValues overridable args (settings ++ [s]) arg = [value] := by
  rw [Table.optionValues, valuesFor_of_sets hs, if_neg (by simp), if_neg hlast, getLast?_concat]
  rfl

theorem Reached.optionValues_unlimited (h : Reached T overridable args settings m)
    (harg : arg ∈ T.arguments) (hkind : arg.kind = .value) (hlimit : arg.limit = .unlimited)
    (hs : Sets s arg value) :
    Table.optionValues overridable args (settings ++ [s]) arg =
      (if arg.type ∈ m.overridable then [] else m.args arg.type) ++ [value] := by
  have hopt : arg.isOption = true := by
    rw [Argument.isOption, hkind]
    rfl
  have hargs := h.options arg harg hopt
  rw [Table.optionValues, valuesFor_of_sets hs, if_neg (by simp), if_pos ⟨hkind, hlimit⟩, h.defaults, hargs,
    Table.optionValues, ← append_assoc]
  by_cases hvalues : valuesFor arg.type settings = []
  · simp only [mem_filter, hvalues, decide_true, and_true, if_true, append_nil]
  · simp only [mem_filter, hvalues, decide_false, Bool.false_eq_true, and_false, if_false, hkind, hlimit, and_self, if_true]

theorem sets_flag (arg : Argument τ) (on : Bool) : Sets (.flag arg on) arg (.flag on) where
  value := if_pos rfl
  others _ htype := if_neg htype.symm
  text := rfl

theorem sets_value (arg : Argument τ) (text : List Char) : Sets (.value arg text) arg (.text text) where
  value := if_pos rfl
  others _ htype := if_neg htype.symm
  text := rfl

theorem Reached.setFlag (h : Reached T overridable args settings m) (hnodup : overridable.Nodup)
    (harg : T.Has .flag arg) (on : Bool) :
    Reached T overridable args (settings ++ [Setting.flag arg on]) (m.setFlag arg.type on) := by
  obtain ⟨hmem, hopt⟩ := Table.Has.isOption (.inl harg)
  have hlast : ¬ (arg.kind = .value ∧ arg.limit = .unlimited) := by
    rw [harg.kind]
    nofun
  rw [Machine.setFlag_eq, ← optionValues_last (sets_flag arg on) hlast]
  exact h.put hnodup hmem hopt (sets_flag arg on)

theorem Reached.addValue (h : Reached T overridable args settings m) (hnodup : overridable.Nodup)
    (harg : T.Has .value arg) (text : List Char) (stop : Bool) :
    Reached T overridable args (settings ++ [Setting.value arg text])
      (m.addValue (T.parser stop) arg.type text) := by
  obtain ⟨hmem, hopt⟩ := Table.Has.isOption (.inr harg)
  have hfind := T.findArgument_eq hmem stop
  rcases limit_cases arg with hlimit | hlimit
  · have hlast : ¬ (arg.kind = .value ∧ arg.limit = .unlimited) := by
      rw [hlimit]
      nofun
    rw [Machine.addValue_of_single hfind hlimit, ← optionValues_last (sets_value arg text) hlast]
    exact h.put hnodup hmem hopt (sets_value arg text)
  · rw [Machine.addValue_of_unlimited hfind hlimit,
      ← h.optionValues_unlimited hmem harg.kind hlimit (sets_value arg text)]
    exact h.put hnodup hmem hopt (sets_value arg text)

def Table.Sets (T : Table τ) : Setting τ → Prop
  | .value arg _ => T.Has .value arg
  | .flag arg _ => T.Has .flag arg
  | .positional _ => False

theorem Reached.foldl_set (h : Reached T overridable args settings m) (hnodup : overridable.Nodup) (stop : Bool)
    {more : List (Setting τ)} (hmore : ∀ s ∈ more, T.Sets s) :
    Reached T overridable args (settings ++ more) (more.foldl (Machine.set (T.parser stop)) m) := by
  induction more generalizing settings m with
  | nil =>
    rw [append_nil]
    exact h
  | cons s more ih =>
    have hs := hmore s mem_cons_self
    have hstep : Reached T overridable args (settings ++ [s]) (m.set (T.parser stop) s) := by
      cases s with
      | value arg text => exact h.addValue hnodup hs text stop
      | flag arg on => exact h.setFlag hnodup hs on
      | positional text => exact hs.elim
    have hrest := ih hstep fun s hs => hmore s (mem_cons_of_mem _ hs)
    rw [append_assoc] at hrest
    exact hrest

omit [DecidableEq τ] in
theorem Table.nodup_slots (T : Table τ) : T.slots.Nodup := (List.Nodup.of_map _ T.types).filter _

omit [DecidableEq τ] in
theorem Table.mem_slots {T : Table τ} (h : arg ∈ T.slots) : arg ∈ T.arguments ∧ arg.kind = .positional := by
  obtain ⟨hmem, hkind⟩ := mem_filter.mp h
  exact ⟨hmem, of_decide_eq_true hkind⟩

omit [DecidableEq τ] in
theorem full_iff {args : ArgMap τ} :
    Machine.full args arg = true ↔ arg.limit = .single ∧ args arg.type ≠ [] := by
  rw [Machine.full, Bool.and_eq_true, decide_eq_true_iff, decide_eq_true_iff, ArgMap.count, Nat.one_le_iff_ne_zero,
    ne_eq, length_eq_zero_iff]

omit [DecidableEq τ] in
theorem dropWhile_full {args args' : ArgMap τ} {search more : List (Argument τ)}
    (hsearch : search.dropWhile (Machine.full args) = arg :: more)
    (hmono : ∀ a, Machine.full args a = true → Machine.full args' a = true)
    (hfull : Machine.full args' arg = true ↔ arg.limit = .single)
    (hmore : arg.limit = .single → ∀ a ∈ more, Machine.full args' a ≠ true) :
    search.dropWhile (Machine.full args') = if arg.limit = .unlimited then arg :: more else more := by
  rw [← takeWhile_append_dropWhile (p := Machine.full args) (l := search), hsearch,
    dropWhile_append_of_pos fun a ha => hmono a (mem_takeWhile_imp ha)]
  rcases limit_cases arg with hlimit | hlimit
  · rw [dropWhile_cons_of_pos (hfull.mpr hlimit), if_neg (by rw [hlimit]; nofun)]
    cases more with
    | nil => rfl
    | cons a more => exact dropWhile_cons_of_neg (hmore hlimit a mem_cons_self)
  · have hnot : ¬ Machine.full args' arg = true := by
      rw [hfull, hlimit]
      nofun
    rw [dropWhile_cons_of_neg hnot, if_pos hlimit]

theorem slotValues_append {more : List (Argument τ)}
    (hrem : remaining T.slots (positionals settings).length = arg :: more) (text : List Char) (type : τ) :
    T.slotValues (settings ++ [Setting.positional text]) type =
      T.slotValues settings type ++ if arg.type = type then [.text text] else [] := by
  have hpos : positionals (settings ++ [Setting.positional text]) = positionals settings ++ [text] :=
    positionals_append _ _
  rw [Table.slotValues, Table.slotValues, hpos, fill_append hrem, filter_append, map_append]
  by_cases htype : arg.type = type
  · simp only [filter_cons, htype, decide_true, if_true, filter_nil, map_cons, map_nil]
  · simp only [filter_cons, htype, decide_false, Bool.false_eq_true, if_false, filter_nil, map_nil]

theorem full_add {args : ArgMap τ} {type : τ} {a : Argument τ} (h : Machine.full args a = true) :
    Machine.full (args.add type value) a = true := by
  rw [full_iff] at h ⊢
  refine ⟨h.1, ?_⟩
  by_cases htype : a.type = type
  · rw [ArgMap.add, htype, Function.update_self]
    exact append_ne_nil_of_right_ne_nil _ (cons_ne_nil _ _)
  · rw [ArgMap.add, Function.update_of_ne htype]
    exact h.2

theorem Reached.positional (h : Reached T overridable args settings m) {more : List (Argument τ)}
    (hrem : remaining T.slots (positionals settings).length = arg :: more) (text : List Char)
    {search : List (Argument τ)} (hsuffix : search <:+ T.slots)
    (hsearch : search.dropWhile (Machine.full m.args) = arg :: more) :
    Reached T overridable args (settings ++ [Setting.positional text])
      { m with args := m.args.add arg.type (.text text), search, anchor := some (m.anchor.getD arg) } := by
  have hpos : positionals (settings ++ [Setting.positional text]) = positionals settings ++ [text] :=
    positionals_append _ _
  have hvalues : ∀ type, valuesFor type (settings ++ [Setting.positional text]) = valuesFor type settings := by
    intro type
    rw [valuesFor_append]
    exact append_nil _
  have hslots := remaining_suffix T.slots (positionals settings).length
  rw [hrem] at hslots
  obtain ⟨harg, hkind⟩ := Table.mem_slots (hslots.subset mem_cons_self)
  have hnodup : (arg :: more).Nodup := T.nodup_slots.sublist hslots.sublist
  have hframe : ∀ a ∈ T.arguments, a ≠ arg → m.args.add arg.type (.text text) a.type = m.args a.type :=
    fun a ha hne => Function.update_of_ne (T.type_ne ha harg hne) _ _
  have hself : m.args.add arg.type (.text text) arg.type = m.args arg.type ++ [Value.text text] :=
    Function.update_self _ _ _
  have hmore : ∀ a ∈ more, a.limit = .single → m.args.add arg.type (.text text) a.type = [] := by
    intro a ha hlimit
    have hmem : a ∈ arg :: more := mem_cons_of_mem _ ha
    rw [hframe a (Table.mem_slots (hslots.subset hmem)).1 fun hsame => (nodup_cons.mp hnodup).1 (hsame ▸ ha)]
    rw [← hrem] at hmem
    exact h.empty a hmem hlimit
  refine { h with options := ?_, slots := ?_, forwards := ?_, others := ?_, defaults := ?_, suffix := hsuffix,
                  search := ?_, empty := ?_, anchor := ?_, unanchored := ?_ }
  · intro a ha hopt
    have hne : a ≠ arg := by
      rintro rfl
      rw [Argument.isOption, hkind] at hopt
      cases hopt
    change m.args.add arg.type (.text text) a.type = _
    rw [hframe a ha hne, h.options a ha hopt, Table.optionValues, Table.optionValues, hvalues]
  · intro a ha hakind
    change m.args.add arg.type (.text text) a.type = _
    rw [slotValues_append hrem]
    by_cases hsame : a = arg
    · rw [hsame, hself, h.slots arg harg hkind, if_pos rfl]
    · rw [hframe a ha hsame, h.slots a ha hakind, if_neg (T.type_ne harg ha (Ne.symm hsame)), append_nil]
  · intro a ha hakind
    have hne : a ≠ arg := by
      rintro rfl
      rw [hkind] at hakind
      cases hakind
    exact (hframe a ha hne).trans (h.forwards a ha hakind)
  · intro type htype
    exact (Function.update_of_ne (htype arg harg).symm _ _).trans (h.others type htype)
  · simp only [hvalues]
    exact h.defaults
  · rw [hpos, length_append, length_singleton, remaining_succ hrem]
    apply dropWhile_full hsearch fun a => full_add
    · rw [full_iff, hself]
      exact and_iff_left (append_ne_nil_of_right_ne_nil _ (cons_ne_nil _ _))
    · intro _ a ha hfull
      rw [full_iff] at hfull
      exact hfull.2 (hmore a ha hfull.1)
  · intro a ha hlimit
    rw [hpos, length_append, length_singleton, remaining_succ hrem] at ha
    split at ha
    · rename_i hunlimited
      rcases mem_cons.mp ha with rfl | ha
      · rw [hlimit] at hunlimited
        cases hunlimited
      · exact hmore a ha hlimit
    · exact hmore a ha hlimit
  · intro a ha
    have hadd : m.args arg.type ++ [Value.text text] ≠ ([] : List Value) :=
      append_ne_nil_of_right_ne_nil _ (cons_ne_nil _ _)
    cases hanchor : m.anchor with
    | none =>
      -- The first positional argument is the anchor.
      rw [h.unanchored.mp hanchor, length_nil, remaining_zero] at hrem
      rw [hanchor] at ha
      cases ha
      rw [hrem]
      refine ⟨rfl, ?_⟩
      change m.args.add arg.type (.text text) arg.type ≠ []
      rw [hself]
      exact hadd
    | some b =>
      obtain ⟨hhead, hne⟩ := h.anchor b hanchor
      rw [hanchor] at ha
      cases ha
      refine ⟨hhead, ?_⟩
      change m.args.add arg.type (.text text) b.type ≠ []
      by_cases hsame : b = arg
      · rw [hsame, hself]
        exact hadd
      · rw [hframe b (Table.mem_slots (mem_of_head? hhead)).1 hsame]
        exact hne
  · rw [hpos]
    simp

theorem stepInternal_of_anchor {p : Parser τ} {forward anchor : Argument τ} {forwards : List (Argument τ)}
    (hpend : m.pending = none) (hforward : p.forwardArgs = forward :: forwards)
    (hanchor : m.anchor = some anchor)
    (token : List Char) (rest : List (List Char)) :
    p.stepInternal m token rest = p.processAnchored m anchor token rest := by
  unfold Parser.stepInternal
  simp only [hpend, hforward, hanchor]

theorem Reached.anchor_full (h : Reached T overridable args settings m) {anchor : Argument τ}
    (hanchor : m.anchor = some anchor) (hlimit : anchor.limit = .single) :
    ¬ (anchor.limit = .unlimited ∨ m.args.count anchor.type < 1) := by
  have hpos := length_pos_iff.mpr (h.anchor anchor hanchor).2
  rw [hlimit, ArgMap.count]
  simp only [reduceCtorEq, false_or]
  omega

theorem Reached.run_positional (h : Reached T overridable args settings m)
    (hroom : remaining T.slots (positionals settings).length ≠ []) {text : List Char}
    (hdash : text.head? ≠ some '-')
    (stop : Bool) (rest : List (List Char)) :
    ∃ m', (T.parser stop).run m (text :: rest) = (T.parser stop).run m' rest ∧
      Reached T overridable args (settings ++ [Setting.positional text]) m' := by
  obtain ⟨arg, more, hrem⟩ := exists_cons_of_ne_nil hroom
  have hsearch := h.search.trans hrem
  have hadvance : m.advance = { m with search := arg :: more } := by
    rw [Machine.advance, hsearch]
  have hsuffix := remaining_suffix T.slots (positionals settings).length
  rw [hrem] at hsuffix
  have hagain : (arg :: more).dropWhile (Machine.full m.args) = arg :: more := by
    rw [← hsearch, dropWhile_idempotent]
  have hreached := h.positional hrem text hsuffix hagain
  by_cases hopen : (T.parser stop).forwardArgs = [] ∨ m.anchor = none
  · refine ⟨_, Open.run_of_next ⟨h.pending, hopen⟩ ?_ rest, hreached⟩
    have htoken : (T.parser stop).processToken m text = Parser.processPositional m text := by
      unfold Parser.processToken
      split
      · exact (hdash rfl).elim
      · exact (hdash rfl).elim
      · exact (hdash rfl).elim
      · rfl
    rw [htoken, Parser.processPositional, hadvance]
    rfl
  · -- Behind the anchor, which is full unless it is unlimited.
    rw [not_or] at hopen
    obtain ⟨hforward, hanchor⟩ := hopen
    obtain ⟨anchor, hanchor⟩ := Option.ne_none_iff_exists'.mp hanchor
    obtain ⟨forward, forwards, hforward⟩ := exists_cons_of_ne_nil hforward
    have hhead := (h.anchor anchor hanchor).1
    have hgetD : some (m.anchor.getD arg) = m.anchor := by
      rw [hanchor]
      rfl
    rw [hgetD] at hreached
    have hstep := stepInternal_of_anchor h.pending hforward hanchor text rest
    rcases limit_cases anchor with hlimit | hlimit
    · refine ⟨_, ?_, hreached⟩
      rw [Parser.run, hstep, Parser.processAnchored, if_neg (h.anchor_full hanchor hlimit), hadvance]
      rfl
    · have hsame : anchor = arg := by
        obtain ⟨slots, hslots⟩ := head?_eq_some_iff.mp hhead
        rw [hslots, remaining_of_unlimited hlimit] at hrem
        exact (List.cons.inj hrem).1
      have hreached' := h.positional hrem text h.suffix hsearch
      rw [hgetD] at hreached'
      refine ⟨_, ?_, hreached'⟩
      rw [Parser.run, hstep, Parser.processAnchored, if_pos (.inl hlimit), hsame]
      rfl

omit [DecidableEq τ] in
theorem sets_flagsSet {flags : List (Argument τ)} (hflags : ∀ arg ∈ flags, T.HasAlias .flag arg)
    (hs : T.Sets s) : ∀ s' ∈ flagsSet flags ++ [s], T.Sets s' := by
  intro s' hs'
  rcases mem_append.mp hs' with hs' | hs'
  · obtain ⟨arg, harg, rfl⟩ := mem_map.mp hs'
    exact (hflags arg harg).toHas
  · rw [mem_singleton.mp hs']
    exact hs

variable {group : List (Setting τ)} {tokens : List (List Char)}

omit [DecidableEq τ] in
theorem Rendered.cases_text (h : Rendered T group tokens) :
    (∃ text, group = [.positional text] ∧ tokens = [text] ∧ text.head? ≠ some '-') ∨ group ≠ [] ∧
    ∀ s ∈ group, T.Sets s := by
  cases h with
  | positional hdash => exact .inl ⟨_, rfl, rfl, hdash⟩
  | value harg text => exact .inr ⟨by simp, forall_mem_singleton.mpr harg⟩
  | valueAdjoined harg hquoted => exact .inr ⟨by simp, forall_mem_singleton.mpr harg⟩
  | flag harg => exact .inr ⟨by simp, forall_mem_singleton.mpr harg⟩
  | flagAdjoined harg hbool => exact .inr ⟨by simp, forall_mem_singleton.mpr harg⟩
  | chain hflags harg => exact .inr ⟨by simp, sets_flagsSet hflags harg.toHas⟩
  | chainAdjoined hflags harg hbool => exact .inr ⟨by simp, sets_flagsSet hflags harg.toHas⟩
  | chainValue hflags harg text => exact .inr ⟨by simp, sets_flagsSet hflags harg.toHas⟩
  | chainValueAdjoined hflags harg hquoted => exact .inr ⟨by simp, sets_flagsSet hflags harg.toHas⟩

omit [DecidableEq τ] in
theorem Table.Sets.text (h : T.Sets s) : s.text? = none := by
  cases s with
  | value arg text => rfl
  | flag arg on => rfl
  | positional text => exact h.elim

omit [DecidableEq τ] in
theorem positionals_of_sets (h : ∀ s ∈ group, T.Sets s) : positionals group = [] :=
  filterMap_eq_nil_iff.mpr fun s hs => (h s hs).text

omit [DecidableEq τ] in
theorem Fits.mono {slots : List (Argument τ)} {n k : Nat} (h : Fits slots n) (hk : k ≤ n) : Fits slots k := by
  rcases h with h | h
  · exact .inl h
  · exact .inr (Nat.le_trans hk h)

def OptionsFirst (settings : List (Setting τ)) : Prop :=
  settings.Pairwise fun a b => a.text? ≠ none → b.text? ≠ none

omit [DecidableEq τ] in
theorem OptionsFirst.not_sets {settings group : List (Setting τ)} (h : OptionsFirst (settings ++ group))
    (hne : group ≠ []) (hsets : ∀ s ∈ group, T.Sets s) : positionals settings = [] := by
  obtain ⟨s, more, hgroup⟩ := exists_cons_of_ne_nil hne
  have hs : s ∈ group := by
    rw [hgroup]
    exact mem_cons_self
  apply filterMap_eq_nil_iff.mpr
  intro a ha
  by_contra htext
  exact (pairwise_append.mp h).2.2 a ha s hs htext (hsets s hs).text

theorem Rendering.reached {todo : List (Setting τ)} (h : Rendering T todo tokens)
    (hnodup : overridable.Nodup) (stop : Bool) (rest : List (List Char))
    (hm : Reached T overridable args settings m)
    (hfits : Fits T.slots (positionals (settings ++ todo)).length)
    (hordered : T.forwards ≠ [] → OptionsFirst (settings ++ todo)) :
    ∃ m', (T.parser stop).run m (tokens ++ rest) = (T.parser stop).run m' rest ∧
      Reached T overridable args (settings ++ todo) m' := by
  induction h generalizing settings m with
  | nil =>
    rw [append_nil]
    exact ⟨m, rfl, hm⟩
  | @append group todo tokens tokens' hgroup hrest ih =>
    rw [← append_assoc] at hfits hordered ⊢
    have hfirst : ∃ m', (T.parser stop).run m (tokens ++ (tokens' ++ rest)) = (T.parser stop).run m' (tokens' ++ rest) ∧
        Reached T overridable args (settings ++ group) m' := by
      rcases hgroup.cases_text with ⟨text, rfl, rfl, hdash⟩ | ⟨hne, hsets⟩
      · refine hm.run_positional (remaining_ne_nil (hfits.mono ?_)) hdash stop _
        simp only [positionals_append, length_append]
        exact Nat.le_add_right _ _
      · have hopen : Open (T.parser stop) m := by
          refine ⟨hm.pending, Classical.or_iff_not_imp_left.mpr fun hforward => ?_⟩
          apply hm.unanchored.mpr
          exact OptionsFirst.not_sets (pairwise_append.mp (hordered hforward)).1 hne hsets
        exact ⟨_, run_of_rendered hgroup (positionals_of_sets hsets) stop hopen _, hm.foldl_set hnodup stop hsets⟩
    obtain ⟨m', hrun, hreached⟩ := hfirst
    obtain ⟨m'', hrun', hreached'⟩ := ih hreached hfits hordered
    refine ⟨m'', ?_, hreached'⟩
    rw [append_assoc, hrun, hrun']

/-- The settings and a tail of forwarded tokens that a table takes. A tail follows positional arguments that
are all full. -/
structure Table.Takes (T : Table τ) (settings : List (Setting τ)) (tail : List (List Char)) : Prop where
  fits : Fits T.slots (positionals settings).length
  ordered : T.forwards ≠ [] → OptionsFirst settings
  tail : tail ≠ [] → T.forwards ≠ [] ∧ T.slots ≠ [] ∧ (∀ arg ∈ T.slots, arg.limit = .single) ∧
    (positionals settings).length = T.slots.length

theorem reached_start (overridable : List τ)
    (hargs : ∀ arg ∈ T.arguments, arg.isOption = false → args arg.type = []) :
    Reached T overridable args []
      { args, pending := none, anchor := none, search := T.slots, overridable } where
  pending := rfl
  options _ _ _ := rfl
  slots arg harg hkind := by
    rw [Table.slotValues, show positionals ([] : List (Setting τ)) = [] from rfl, fill_nil]
    exact hargs arg harg (by rw [Argument.isOption, hkind]; rfl)
  forwards arg harg hkind := hargs arg harg (by rw [Argument.isOption, hkind]; rfl)
  others _ _ := rfl
  defaults := (filter_eq_self.mpr fun _ _ => rfl).symm
  suffix := suffix_rfl
  search := by
    change T.slots.dropWhile (Machine.full args) = remaining T.slots 0
    rw [remaining_zero]
    cases hslots : T.slots with
    | nil => rfl
    | cons arg slots =>
      have hslot : arg ∈ T.slots := hslots ▸ mem_cons_self
      obtain ⟨harg, hkind⟩ := Table.mem_slots hslot
      apply dropWhile_cons_of_neg
      rw [full_iff, hargs arg harg (by rw [Argument.isOption, hkind]; rfl)]
      exact fun h => h.2 rfl
  empty arg harg _ := by
    obtain ⟨harg, hkind⟩ := Table.mem_slots ((remaining_suffix _ _).subset harg)
    exact hargs arg harg (by rw [Argument.isOption, hkind]; rfl)
  anchor := nofun
  unanchored := ⟨fun _ => rfl, fun _ => rfl⟩

theorem Reached.args_eq (h : Reached T overridable args settings m) :
    m.args = T.parsed overridable args settings [] := by
  funext type
  rw [Table.parsed]
  split
  · rename_i hnone
    apply h.others
    intro arg harg htype
    have hnot := find?_eq_none.mp hnone arg harg
    exact hnot (decide_eq_true htype)
  · rename_i arg hfind
    have harg := mem_of_find?_eq_some hfind
    have htype : arg.type = type := of_decide_eq_true (find?_some (p := fun a : Argument τ => a.type = type) hfind)
    subst htype
    cases hkind : arg.kind with
    | flag => exact h.options arg harg (by rw [Argument.isOption, hkind]; rfl)
    | value => exact h.options arg harg (by rw [Argument.isOption, hkind]; rfl)
    | positional => exact h.slots arg harg hkind
    | forward =>
      simp only [ne_eq, not_true_eq_false, and_false, if_false]
      exact h.forwards arg harg hkind

theorem Table.parsed_tail {forward : Argument τ} {forwards : List (Argument τ)}
    (hforwards : T.forwards = forward :: forwards)
    {tail : List (List Char)} (htail : tail ≠ []) :
    T.parsed overridable args settings tail =
      Function.update (T.parsed overridable args settings []) forward.type [.forwarded tail] := by
  have hmem : forward ∈ T.forwards := hforwards ▸ mem_cons_self
  obtain ⟨hmem, hkind⟩ := mem_filter.mp hmem
  have hkind : forward.kind = .forward := of_decide_eq_true hkind
  funext type
  by_cases htype : type = forward.type
  · have hfind := T.findArgument_eq hmem false
    rw [htype, Function.update_self, Table.parsed]
    rw [Parser.findArgument] at hfind
    change T.arguments.find? _ = _ at hfind
    rw [hfind]
    simp only [hkind, hforwards, head?_cons, true_and, if_pos htail]
  · rw [Function.update_of_ne htype, Table.parsed, Table.parsed]
    split
    · rfl
    · rename_i arg hfind
      have harg : arg.type = type := of_decide_eq_true (find?_some (p := fun a : Argument τ => a.type = type) hfind)
      have hother : T.forwards.head? ≠ some arg := by
        rw [hforwards]
        intro hsame
        cases hsame
        exact htype harg.symm
      simp only [hother, false_and, if_false]

theorem Reached.run_tail (h : Reached T overridable args settings m) {tail : List (List Char)}
    (htakes : T.Takes settings tail) (stop : Bool) :
    (T.parser stop).run m tail = .ok (T.parsed overridable args settings tail, []) := by
  cases tail with
  | nil =>
    rw [Parser.run, h.pending, h.args_eq]
  | cons token rest =>
    obtain ⟨hforwards, hslots, hsingle, hlen⟩ := htakes.tail (cons_ne_nil _ _)
    obtain ⟨forward, forwards, hforwards⟩ := exists_cons_of_ne_nil hforwards
    have hanchor : m.anchor ≠ none := by
      intro hnone
      rw [h.unanchored.mp hnone, length_nil] at hlen
      exact hslots (length_eq_zero_iff.mp hlen.symm)
    obtain ⟨anchor, hanchor⟩ := Option.ne_none_iff_exists'.mp hanchor
    have hfull := h.anchor_full hanchor (hsingle anchor (mem_of_head? (h.anchor anchor hanchor).1))
    have hadvance : m.advance = { m with search := [] } := by
      rw [Machine.advance, h.search, hlen, remaining_length hsingle]
    have hforwardArgs : (T.parser stop).forwardArgs = forward :: forwards := hforwards
    have hmem : forward ∈ T.forwards := hforwards ▸ mem_cons_self
    obtain ⟨hmem, hkind⟩ := mem_filter.mp hmem
    have hempty := h.forwards forward hmem (of_decide_eq_true hkind)
    have hstep : (T.parser stop).stepInternal m token rest =
        .finish ({ m with search := [] }.add forward.type (.forwarded (token :: rest))) := by
      rw [stepInternal_of_anchor h.pending hforwardArgs hanchor, Parser.processAnchored, if_neg hfull, hadvance]
      simp only [hforwardArgs]
    rw [Parser.run, hstep, Table.parsed_tail hforwards (cons_ne_nil _ _), ← h.args_eq]
    simp only [Machine.add, ArgMap.add, hempty, nil_append]

omit [DecidableEq τ] in
theorem Rendered.arguments_ne_nil (h : Rendered T group tokens)
    (hfits : Fits T.slots (positionals group).length) : T.arguments ≠ [] := by
  rcases h.cases_text with ⟨text, rfl, -, -⟩ | ⟨hne, hsets⟩
  · have hroom : remaining T.slots 0 ≠ [] := remaining_ne_nil hfits
    rw [remaining_zero] at hroom
    intro hnil
    rw [Table.slots, hnil] at hroom
    exact hroom rfl
  · obtain ⟨s, more, rfl⟩ := exists_cons_of_ne_nil hne
    have hs := hsets s mem_cons_self
    cases s with
    | value arg text => exact ne_nil_of_mem hs.mem
    | flag arg on => exact ne_nil_of_mem hs.mem
    | positional text => exact hs.elim

/-- The parser reads from a rendering what its settings say. -/
theorem parseArguments_of_rendering (T : Table τ) {settings : List (Setting τ)} {tokens tail : List (List Char)}
    (h : Rendering T settings tokens) (htakes : T.Takes settings tail) {overridable : List τ}
    (hnodup : overridable.Nodup) {args : ArgMap τ}
    (hargs : ∀ arg ∈ T.arguments, arg.isOption = false → args arg.type = []) (stop : Bool) :
    (T.parser stop).parseArguments overridable args (tokens ++ tail) =
      .ok (T.parsed overridable args settings tail, []) := by
  have hstart := reached_start overridable hargs
  obtain ⟨m, hrun, hreached⟩ := h.reached hnodup stop tail hstart htakes.fits htakes.ordered
  have hresult := hrun.trans (hreached.run_tail htakes stop)
  by_cases hnil : T.arguments = []
  · -- Without arguments there is nothing to be written.
    have hparser : (T.parser stop).arguments = [] := hnil
    have htail : tail = [] := by
      by_contra htail
      apply (htakes.tail htail).1
      rw [Table.forwards, hnil]
      rfl
    cases h with
    | nil =>
      rw [Parser.parseArguments, if_pos hparser]
      subst htail
      exact hresult
    | append hgroup hrest =>
      refine (hgroup.arguments_ne_nil (htakes.fits.mono ?_) hnil).elim
      rw [positionals_append, length_append]
      exact Nat.le_add_right _ _
  · rw [Parser.parseArguments, if_neg (show ¬ (T.parser stop).arguments = [] from hnil)]
    exact hresult

end Reached

section Run

def image : Argument Nat := { type := 0, name := "image".toList, aliasName := [], kind := .positional, limit := .single }

def command : Argument Nat :=
  { type := 1, name := "command".toList, aliasName := [], kind := .positional, limit := .single }

def forwardArgs : Argument Nat :=
  { type := 2, name := "arguments".toList, aliasName := [], kind := .forward, limit := .single }

def interactive : Argument Nat :=
  { type := 3, name := "interactive".toList, aliasName := "i".toList, kind := .flag, limit := .single }

def publish : Argument Nat :=
  { type := 4, name := "publish".toList, aliasName := "p".toList, kind := .value, limit := .unlimited }

def runTable : Table Nat where
  arguments := [image, command, forwardArgs, interactive, publish]
  types := by decide
  names := by decide
  aliases := by decide
  plainName := by decide
  plainAlias := by decide

theorem runTable_parsed :
    (runTable.parser false).parseArguments [4] (fun type => if type = 4 then [.text "81".toList] else [])
        (["-ip", "80", "img", "sh", "-c"].map String.toList) =
      .ok (runTable.parsed [4] (fun type => if type = 4 then [.text "81".toList] else [])
        [.flag interactive true, .value publish "80".toList, .positional "img".toList, .positional "sh".toList]
        ["-c".toList], []) := by
  have hinteractive : runTable.HasAlias .flag interactive := ⟨⟨by decide, rfl⟩, by decide⟩
  have hpublish : runTable.HasAlias .value publish := ⟨⟨by decide, rfl⟩, by decide⟩
  have hoptions : Rendered runTable (flagsSet [interactive] ++ [Setting.value publish "80".toList])
      [aliasChain [interactive] publish, "80".toList] :=
    .chainValue (fun arg harg => mem_singleton.mp harg ▸ hinteractive) hpublish _
  have himage : Rendered runTable [.positional "img".toList] ["img".toList] := .positional (by decide)
  have hcommand : Rendered runTable [.positional "sh".toList] ["sh".toList] := .positional (by decide)
  refine parseArguments_of_rendering runTable (.append hoptions (.append himage (.append hcommand .nil))) ?_
    (by decide) ?_ false
  · refine ⟨.inr (by decide), fun _ => ?_, fun _ => ⟨by decide, by decide, by decide, by decide⟩⟩
    simp [OptionsFirst, flagsSet, Setting.text?]
  · decide

/-- A token behind the image is the command, not an argument that is forwarded. -/
theorem runTable_fills_command :
    ¬ ∀ (T : Table Nat) (settings : List (Setting Nat)) (tokens tail : List (List Char)),
      Rendering T settings tokens → Fits T.slots (positionals settings).length →
      (T.forwards ≠ [] → OptionsFirst settings) → (tail ≠ [] → T.forwards ≠ []) →
      (T.parser false).parseArguments [] (fun _ => []) (tokens ++ tail) =
        .ok (T.parsed [] (fun _ => []) settings tail, []) := by
  intro h
  have himage : Rendered runTable [.positional "img".toList] ["img".toList] := .positional (by decide)
  have hparsed := h runTable _ _ ["sh".toList] (.append himage .nil) (.inr (by decide))
    (fun _ => by simp [OptionsFirst]) (fun _ => by decide)
  have hcommand := congrArg (fun result => result.toOption.map fun parsed => parsed.1 1) hparsed
  revert hcommand
  decide

end Run

end WslPlus.Cli
