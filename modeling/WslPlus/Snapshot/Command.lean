import WslPlus.Lib.Shell

/-!
# Snapshot commands

The text that the snapshot module hands to the shell, and the tokens it is
meant to have. A snapshot name is put between single quotes as it stands, so
the text has these tokens exactly when the name has no single quote.
-/

namespace WslPlus.Snapshot

open Shell

inductive Action where
  | unknown
  | create
  | list
  | delete
  | restore
deriving DecidableEq

def kBtrfsPath : List Char := "/usr/bin/btrfs".toList

def kSnapshotPrefix : List Char := "/@snap-".toList

def parseAction (value : List Char) : Action :=
  if value = "create".toList then .create
  else if value = "list".toList then .list
  else if value = "delete".toList then .delete
  else if value = "restore".toList then .restore
  else .unknown

def buildSetDefaultCommand (subvolPath : List Char) : List Char :=
  "ID=$(".toList ++ kBtrfsPath ++ " subvolume show '".toList ++ subvolPath ++
    "' | awk '/Subvolume ID/\x7bprint $3\x7d'); ".toList ++ kBtrfsPath ++
    " subvolume set-default $ID /".toList

def buildCommand (action : Action) (name : List Char) : List Char :=
  match action with
  | .create => kBtrfsPath ++ " subvolume snapshot / '".toList ++ kSnapshotPrefix ++ name ++ "'".toList
  | .list => kBtrfsPath ++ " subvolume list -p /".toList
  | .delete => kBtrfsPath ++ " subvolume delete '".toList ++ kSnapshotPrefix ++ name ++ "'".toList
  | .restore =>
    kBtrfsPath ++ " subvolume snapshot / '/@snap-pre-restore-".toList ++ name ++ "'; ".toList ++
      buildSetDefaultCommand ("/@snap-".toList ++ name)
  | .unknown => []

def btrfs (args : List (List Char)) : List Item := simple ((kBtrfsPath :: args).map literal)

def intended (action : Action) (name : List Char) : List Item :=
  let path := kSnapshotPrefix ++ name
  match action with
  | .create => btrfs ["subvolume".toList, "snapshot".toList, "/".toList, path]
  | .list => btrfs ["subvolume".toList, "list".toList, "-p".toList, "/".toList]
  | .delete => btrfs ["subvolume".toList, "delete".toList, path]
  | .restore =>
    sequential
      (btrfs ["subvolume".toList, "snapshot".toList, "/".toList, "/@snap-pre-restore-".toList ++ name])
      (sequential
        (assignOutput "ID".toList
          (pipe (btrfs ["subvolume".toList, "show".toList, path])
            (simple [literal "awk".toList, literal "/Subvolume ID/\x7bprint $3\x7d".toList])))
        (simple [literal kBtrfsPath, literal "subvolume".toList, literal "set-default".toList,
          [.param "ID".toList false], literal "/".toList]))
  | .unknown => []

/-- The shell runs the intended commands and nothing else. An empty command
line is rejected with EINVAL and not run. -/
def RunsAsIntended (action : Action) (name : List Char) : Prop :=
  buildCommand action name = [] ∨ lex (buildCommand action name) = some (intended action name)

instance (action : Action) (name : List Char) : Decidable (RunsAsIntended action name) :=
  inferInstanceAs (Decidable (_ ∨ _))

def quoting (frames : List Frame) : Lexer :=
  { mode := .single, inWord := true, assignable := false, frames := frames, lastOp := none }

/-- The text before a quoted argument and the items it is read as. -/
structure Opens (head : List Char) (items : List Item) : Prop where
  after : Lexer.start.after head = quoting []
  items : Lexer.start.items head = items

section Argument

variable {head name rest : List Char} {before : List Item}

theorem Opens.not_mem (h : Opens head before) (hrest : Lexer.Ends rest) {R : List Item}
    (hlex : lex (head ++ (name ++ '\'' :: rest)) = some (before ++ (name.map Item.char ++ Item.wordEnd :: R))) :
    '\'' ∉ name := by
  intro hname
  obtain ⟨F, hF, heq⟩ := Option.map_eq_some_iff.mp hlex
  rw [Lexer.after_append, h.after] at hF
  rw [Lexer.items_append, h.items, h.after, List.append_assoc, List.append_cancel_left_eq] at heq
  exact Lexer.items_ne_of_quote rfl rfl hname hrest hF heq

theorem Opens.lex (h : Opens head before) (hname : '\'' ∉ name) :
    lex (head ++ (name ++ ['\''])) = some (before ++ (name.map Item.char ++ [Item.wordEnd])) := by
  obtain ⟨hafter, hitems⟩ := Lexer.items_single (l := quoting []) rfl hname
  rw [Shell.lex, Lexer.after_append, Lexer.items_append, h.after, h.items, Lexer.after_append,
    Lexer.items_append, hafter, hitems]
  simp [Lexer.read, quoting, Lexer.took, Lexer.finish, Lexer.endWord]

/-- A command that ends with a quoted argument has the name as one argument
exactly when the name has no quote. -/
theorem Opens.lex_iff (h : Opens head before) (name : List Char) :
    Shell.lex (head ++ (name ++ ['\''])) = some (before ++ (name.map Item.char ++ [Item.wordEnd])) ↔
      '\'' ∉ name :=
  ⟨h.not_mem .nil, h.lex⟩

end Argument

theorem opens_create :
    Opens (kBtrfsPath ++ " subvolume snapshot / '".toList ++ kSnapshotPrefix)
      (btrfs ["subvolume".toList, "snapshot".toList, "/".toList] ++ literal kSnapshotPrefix) := by
  constructor <;> rfl

theorem opens_delete :
    Opens (kBtrfsPath ++ " subvolume delete '".toList ++ kSnapshotPrefix)
      (btrfs ["subvolume".toList, "delete".toList] ++ literal kSnapshotPrefix) := by
  constructor <;> decide

theorem opens_restore :
    Opens (kBtrfsPath ++ " subvolume snapshot / '/@snap-pre-restore-".toList)
      (btrfs ["subvolume".toList, "snapshot".toList, "/".toList] ++
        literal "/@snap-pre-restore-".toList) := by
  constructor <;> decide +kernel

theorem btrfs_append (args : List (List Char)) (path name : List Char) :
    btrfs (args ++ [path ++ name]) = btrfs args ++ literal path ++ (name.map Item.char ++ [Item.wordEnd]) := by
  simp [btrfs, simple, literal]

theorem create_iff (name : List Char) : RunsAsIntended .create name ↔ '\'' ∉ name := by
  have htext : buildCommand .create name =
      kBtrfsPath ++ " subvolume snapshot / '".toList ++ kSnapshotPrefix ++ (name ++ ['\'']) :=
    List.append_assoc _ _ _
  have hne : buildCommand .create name ≠ [] := List.cons_ne_nil _ _
  have hitems := btrfs_append ["subvolume".toList, "snapshot".toList, "/".toList] kSnapshotPrefix name
  rw [RunsAsIntended, or_iff_right hne, htext, ← opens_create.lex_iff name, ← hitems]
  rfl

theorem delete_iff (name : List Char) : RunsAsIntended .delete name ↔ '\'' ∉ name := by
  have htext : buildCommand .delete name =
      kBtrfsPath ++ " subvolume delete '".toList ++ kSnapshotPrefix ++ (name ++ ['\'']) :=
    List.append_assoc _ _ _
  have hne : buildCommand .delete name ≠ [] := List.cons_ne_nil _ _
  have hitems := btrfs_append ["subvolume".toList, "delete".toList] kSnapshotPrefix name
  rw [RunsAsIntended, or_iff_right hne, htext, ← opens_delete.lex_iff name, ← hitems]
  rfl

def restoreMiddle : List Char :=
  "; ".toList ++ "ID=$(".toList ++ kBtrfsPath ++ " subvolume show '".toList ++ "/@snap-".toList

def restoreTail : List Char :=
  " | awk '/Subvolume ID/\x7bprint $3\x7d'); ".toList ++ kBtrfsPath ++
    " subvolume set-default $ID /".toList

theorem restore_parts {a b c d e f g h n x y : List Char} (hx : x = '\'' :: c) (hy : y = '\'' :: g) :
    a ++ b ++ n ++ x ++ (d ++ a ++ e ++ (f ++ n) ++ y ++ a ++ h) =
      a ++ b ++ (n ++ '\'' :: (c ++ d ++ a ++ e ++ f ++ (n ++ '\'' :: (g ++ a ++ h)))) := by
  simp [hx, hy]

theorem restore_text (name : List Char) :
    buildCommand .restore name =
      kBtrfsPath ++ " subvolume snapshot / '/@snap-pre-restore-".toList ++
        (name ++ '\'' :: (restoreMiddle ++ (name ++ '\'' :: restoreTail))) := by
  apply restore_parts
  · decide +kernel
  · decide +kernel

/-- The items of the middle part: the end of the first word, then the opening of
the substitution up to the second name. -/
def restoreOpening : List Item :=
  Item.op ';' false :: literal "ID".toList ++ Item.assign :: Item.substOpen false ::
    btrfs ["subvolume".toList, "show".toList] ++ literal kSnapshotPrefix

def restoreClosing : List Item :=
  .wordEnd :: .op '|' false ::
    simple [literal "awk".toList, literal "/Subvolume ID/\x7bprint $3\x7d".toList] ++
    .substClose :: .wordEnd :: .op ';' false ::
    simple [literal kBtrfsPath, literal "subvolume".toList, literal "set-default".toList,
      [.param "ID".toList false], literal "/".toList]

theorem intended_restore (name : List Char) :
    intended .restore name =
      btrfs ["subvolume".toList, "snapshot".toList, "/".toList] ++
        literal "/@snap-pre-restore-".toList ++
        (name.map Item.char ++ Item.wordEnd :: (restoreOpening ++ (name.map Item.char ++ restoreClosing))) := by
  have hfirst := btrfs_append ["subvolume".toList, "snapshot".toList, "/".toList]
    "/@snap-pre-restore-".toList name
  have hsecond := btrfs_append ["subvolume".toList, "show".toList] kSnapshotPrefix name
  simp only [List.cons_append, List.nil_append] at hfirst hsecond
  simp only [intended, sequential, pipe, assignOutput, restoreOpening, restoreClosing, hfirst, hsecond,
    List.append_assoc, List.cons_append, List.nil_append]

theorem restore_middle :
    (quoting []).after ('\'' :: restoreMiddle) = quoting [.subst false] ∧
      (quoting []).items ('\'' :: restoreMiddle) = .wordEnd :: restoreOpening := by
  constructor <;> rfl

theorem restore_tail :
    ∃ F, ((quoting [.subst false]).after ('\'' :: restoreTail)).finish = some F ∧
      (quoting [.subst false]).items ('\'' :: restoreTail) ++ F = restoreClosing := by
  refine ⟨[.wordEnd], ?_, ?_⟩ <;> decide +kernel

theorem restore_iff (name : List Char) : RunsAsIntended .restore name ↔ '\'' ∉ name := by
  have hne : buildCommand .restore name ≠ [] := List.cons_ne_nil _ _
  rw [RunsAsIntended, or_iff_right hne, restore_text, intended_restore]
  constructor
  · intro h
    exact opens_restore.not_mem (.semi _) h
  · intro hname
    have hfirst := Lexer.items_single (l := quoting []) rfl hname
    have hsecond := Lexer.items_single (l := quoting [.subst false]) rfl hname
    obtain ⟨F, hfinish, htail⟩ := restore_tail
    rw [← List.cons_append, lex, Lexer.after_append, Lexer.items_append, opens_restore.after,
      opens_restore.items, Lexer.after_append, Lexer.items_append, hfirst.1, hfirst.2,
      Lexer.after_append, Lexer.items_append, restore_middle.1, restore_middle.2,
      Lexer.after_append, Lexer.items_append, hsecond.1, hsecond.2, hfinish, ← htail]
    simp only [Option.map_some, List.append_assoc, List.cons_append]

theorem list_runs : lex (kBtrfsPath ++ " subvolume list -p /".toList) =
    some (btrfs ["subvolume".toList, "list".toList, "-p".toList, "/".toList]) := by
  rfl

/-- The shell runs the intended commands exactly when the name has no single
quote, for the actions that use the name. -/
theorem buildCommand_runsAsIntended_iff (action : Action) (name : List Char) :
    RunsAsIntended action name ↔ action = .unknown ∨ action = .list ∨ '\'' ∉ name := by
  cases action with
  | unknown => simp [RunsAsIntended, buildCommand]
  | list =>
    have hlist : lex (buildCommand .list name) = some (intended .list name) := list_runs
    simp [RunsAsIntended, hlist]
  | create => simp [create_iff]
  | delete => simp [delete_iff]
  | restore => simp [restore_iff]

theorem buildCommand_runs_reboot : ¬ RunsAsIntended .create "a'; reboot; '".toList := by
  decide +kernel

end WslPlus.Snapshot
