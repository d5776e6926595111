import WslPlus.Lib.Execution
import WslPlus.Snapshot.Message

/-!
# Outcome of a restore

A restore takes a snapshot of the current root, looks up the id of the target
and makes the target the default subvolume. The three commands are joined by
`;`, so each of them runs whatever became of the ones before it, and the status
that comes back through popen is the status of the last one.
-/

namespace WslPlus.Snapshot

open Shell

/-- Which of the library calls around the command line succeed. -/
structure Host where
  dup2 : Bool
  popen : Bool
  pclose : Bool

def utilProcessChildExitCode (status expectedStatus : Nat) : Int :=
  if status = expectedStatus then 0 else -1

/-- The result and the programs that were run. The text reaches the shell only if
popen succeeds. There is no result if the text has no execution. -/
def utilExecCommandLine (host : Host) (programs : Programs) (commandLine : List Char)
    (expectedStatus : Nat) : Option (Int × List Run) :=
  if !host.popen then some (-1, [])
  else do
    let x ← execute programs commandLine
    -- A failed read has no effect: its result is overwritten by the one of pclose.
    let result := if !host.pclose then -1 else utilProcessChildExitCode x.env.status expectedStatus
    return (result, x.trace)

structure Response where
  responseCode : Int
  trace : List Run
deriving DecidableEq

/-- The child process of the init process. An exception leaves the response code
as it was set at first. -/
def snapshotChild (host : Host) (programs : Programs) (pid : Nat) (message : Message) : Option Response :=
  if !host.dup2 then some { responseCode := -1, trace := [] }
  else
    match processSnapshotMessage pid message with
    | .error _ => some { responseCode := -1, trace := [] }
    | .ok commandLine => do
      let (result, trace) ← utilExecCommandLine host programs commandLine 0
      return { responseCode := if result < 0 then -1 else 0, trace := trace }

section Commands

variable (programs : Programs) (name : List Char)

def safetyArgv : List (List Char) :=
  [kBtrfsPath, "subvolume".toList, "snapshot".toList, "/".toList, "/@snap-pre-restore-".toList ++ name]

def showArgv : List (List Char) :=
  [kBtrfsPath, "subvolume".toList, "show".toList, kSnapshotPrefix ++ name]

def awkArgv : List (List Char) := ["awk".toList, "/Subvolume ID/\x7bprint $3\x7d".toList]

def setDefaultArgv (id : List (List Char)) : List (List Char) :=
  kBtrfsPath :: "subvolume".toList :: "set-default".toList :: id ++ ["/".toList]

/-- The arguments that an unquoted `$ID` becomes, from the output of the lookup. -/
def idFields (output : List Char) : List (List Char) :=
  (Word.empty.expand false (stripNewlines output)).fields

def safetyResult : Result := programs (safetyArgv name) []

def showResult : Result := programs (showArgv name) []

def awkResult : Result := programs awkArgv (showResult programs name).output

def setDefaultResult : Result :=
  programs (setDefaultArgv (idFields (awkResult programs name).output)) []

end Commands

def SafetyTaken (name : List Char) (trace : List Run) : Prop :=
  ∃ run ∈ trace, run.argv = safetyArgv name ∧ run.result.status = 0

def IdFound (name : List Char) (trace : List Run) : Prop :=
  (∃ run ∈ trace, run.argv = showArgv name ∧ run.result.status = 0) ∧
    ∃ run ∈ trace, run.argv = awkArgv ∧ run.result.status = 0 ∧ idFields run.result.output ≠ []

def Switched (trace : List Run) : Prop :=
  ∃ run ∈ trace, [kBtrfsPath, "subvolume".toList, "set-default".toList] <+: run.argv ∧
    run.result.status = 0

/-- The default subvolume is switched, and success is reported, only with a way
back and a target that was found; otherwise nothing is switched and a failure
is reported. -/
structure Truthful (name : List Char) (r : Response) : Prop where
  switched : Switched r.trace → SafetyTaken name r.trace ∧ IdFound name r.trace
  success : r.responseCode = 0 → SafetyTaken name r.trace ∧ IdFound name r.trace ∧ Switched r.trace
  otherwise : ¬ (SafetyTaken name r.trace ∧ IdFound name r.trace ∧ Switched r.trace) →
    ¬ Switched r.trace ∧ r.responseCode ≠ 0

def restoreTrace (programs : Programs) (name : List Char) : List Run :=
  [{ argv := safetyArgv name, result := safetyResult programs name },
    { argv := showArgv name, result := showResult programs name },
    { argv := awkArgv, result := awkResult programs name },
    { argv := setDefaultArgv (idFields (awkResult programs name).output),
      result := setDefaultResult programs name }]

section Restore

variable (programs : Programs) (name : List Char)

def afterSafety : Execution :=
  { env := { Env.start [] with
      output := (safetyResult programs name).output, status := (safetyResult programs name).status }
    outer := []
    trace := (restoreTrace programs name).take 1 }

def afterLookup : Execution :=
  { env := { Env.start [("ID".toList, stripNewlines (awkResult programs name).output)] with
      output := (safetyResult programs name).output, status := (awkResult programs name).status }
    outer := []
    trace := (restoreTrace programs name).take 3 }

theorem steps_safety (rest : List Item) :
    Execution.start.steps programs
      (btrfs ["subvolume".toList, "snapshot".toList, "/".toList, "/@snap-pre-restore-".toList ++ name] ++
        .op ';' false :: rest) = (afterSafety programs name).steps programs rest :=
  Execution.steps_simple_semi (Execution.fresh_start [])

theorem steps_lookup (rest : List Item) :
    (afterSafety programs name).steps programs (assignOutput "ID".toList
        (pipe (btrfs ["subvolume".toList, "show".toList, kSnapshotPrefix ++ name])
          (simple [literal "awk".toList, literal "/Subvolume ID/\x7bprint $3\x7d".toList])) ++
        .op ';' false :: rest) = (afterLookup programs name).steps programs rest := by
  have hawk : simple [literal "awk".toList, literal "/Subvolume ID/\x7bprint $3\x7d".toList] =
      simple (awkArgv.map literal) := rfl
  rw [assignOutput, pipe, hawk]
  simp only [List.append_assoc, List.cons_append, List.nil_append]
  rw [Execution.steps_assign_open ⟨⟨rfl, rfl⟩, rfl, rfl⟩]
  refine (Execution.steps_simple_pipe (Execution.fresh_start _)).trans ?_
  refine (Execution.steps_simple_close ⟨⟨rfl, rfl⟩, rfl, rfl⟩ rfl).trans ?_
  exact Execution.steps_assign_semi rfl (Word.text_expand _ _) rfl rfl rfl

theorem steps_setDefault :
    (afterLookup programs name).steps programs
      (simple [literal kBtrfsPath, literal "subvolume".toList, literal "set-default".toList,
        [.param "ID".toList false], literal "/".toList]) =
      some ((afterLookup programs name).addArgs
        (setDefaultArgv (idFields (awkResult programs name).output))) := by
  have hbetween : ∀ args, ((afterLookup programs name).addArgs args).env.Between := fun _ => ⟨rfl, rfl⟩
  have hsplit : simple [literal kBtrfsPath, literal "subvolume".toList, literal "set-default".toList,
        [.param "ID".toList false], literal "/".toList] =
      simple ([kBtrfsPath, "subvolume".toList, "set-default".toList].map literal) ++
        ([Item.param "ID".toList false, Item.wordEnd] ++ simple (["/".toList].map literal)) := by
    simp [simple]
  rw [hsplit, Execution.steps_append, Execution.steps_words ⟨rfl, rfl⟩, Option.bind_some,
    Execution.steps_append, Execution.steps_param (hbetween _), Option.bind_some,
    Execution.addArgs_addArgs, Execution.steps_words (hbetween _), Execution.addArgs_addArgs]
  rfl

end Restore

theorem execute_restore (programs : Programs) {name : List Char} (hname : '\'' ∉ name) :
    ∃ x, execute programs (buildCommand .restore name) = some x ∧
      x.env.status = (setDefaultResult programs name).status ∧ x.trace = restoreTrace programs name := by
  have hne : buildCommand .restore name ≠ [] := List.cons_ne_nil _ _
  have hlex : lex (buildCommand .restore name) = some (intended .restore name) :=
    ((restore_iff name).mpr hname).resolve_left hne
  rw [execute, hlex]
  simp only [Option.bind_eq_bind, Option.bind_some, intended, sequential]
  rw [steps_safety, steps_lookup, steps_setDefault, Option.bind_some]
  exact ⟨_, rfl, rfl, rfl⟩

section Trace

variable (programs : Programs) (name : List Char)

theorem safetyTaken_restoreTrace :
    SafetyTaken name (restoreTrace programs name) ↔ (safetyResult programs name).status = 0 := by
  have hshow : showArgv name ≠ safetyArgv name := by simp [showArgv, safetyArgv]
  have hawk : awkArgv ≠ safetyArgv name := by simp [awkArgv, safetyArgv]
  have hset : ∀ id, setDefaultArgv id ≠ safetyArgv name := by simp [setDefaultArgv, safetyArgv]
  simp [SafetyTaken, restoreTrace, hshow, hawk, hset]

theorem idFound_restoreTrace :
    IdFound name (restoreTrace programs name) ↔ (showResult programs name).status = 0 ∧
      (awkResult programs name).status = 0 ∧ idFields (awkResult programs name).output ≠ [] := by
  have hsafety : safetyArgv name ≠ showArgv name := by simp [showArgv, safetyArgv]
  have hawk : awkArgv ≠ showArgv name := by simp [awkArgv, showArgv]
  have hset : ∀ id, setDefaultArgv id ≠ showArgv name := by simp [setDefaultArgv, showArgv]
  have hsafety' : safetyArgv name ≠ awkArgv := by simp [awkArgv, safetyArgv]
  have hset' : ∀ id, setDefaultArgv id ≠ awkArgv := by simp [setDefaultArgv, awkArgv]
  simp [IdFound, restoreTrace, hsafety, hawk, hset, hsafety', hawk.symm, hset']

theorem switched_restoreTrace :
    Switched (restoreTrace programs name) ↔ (setDefaultResult programs name).status = 0 := by
  simp [Switched, restoreTrace, safetyArgv, showArgv, awkArgv, setDefaultArgv]

end Trace

def snapName (pid : Nat) (message : Message) : List Char :=
  if message.name.isEmpty then defaultSnapshotName pid else message.name

theorem not_mem_snapName (pid : Nat) {message : Message} (hname : '\'' ∉ message.name) :
    '\'' ∉ snapName pid message := by
  rw [snapName]
  split
  · intro hmem
    rcases List.mem_append.mp hmem with hauto | hpid
    · revert hauto
      decide
    · have hdigits : (toString pid).toList = Nat.toDigits 10 pid := Nat.toList_repr
      rw [hdigits] at hpid
      have hdigit := Nat.isDigit_of_mem_toDigits (by decide) (by decide) hpid
      revert hdigit
      decide
  · exact hname

theorem processSnapshotMessage_restore (pid : Nat) {message : Message}
    (haction : message.action = "restore".toList) :
    processSnapshotMessage pid message = .ok (buildCommand .restore (snapName pid message)) := by
  have hparse : parseAction message.action = .restore := by
    rw [haction]
    decide
  apply processSnapshotMessage_eq_ok.mpr
  rw [hparse]
  exact ⟨by decide, rfl⟩

theorem snapshotChild_restore {host : Host} (programs : Programs) (pid : Nat) {message : Message}
    (haction : message.action = "restore".toList) (hname : '\'' ∉ message.name)
    (hdup2 : host.dup2 = true) (hpopen : host.popen = true) :
    ∃ code, snapshotChild host programs pid message =
        some { responseCode := code, trace := restoreTrace programs (snapName pid message) } ∧
      (code = 0 → (setDefaultResult programs (snapName pid message)).status = 0) := by
  have hcommand := processSnapshotMessage_restore pid haction
  obtain ⟨x, hx, hstat, htrace⟩ := execute_restore programs (not_mem_snapName pid hname)
  refine ⟨if (if !host.pclose then -1 else utilProcessChildExitCode x.env.status 0 : Int) < 0
    then -1 else 0, ?_, ?_⟩
  · simp only [snapshotChild, hdup2, hcommand, utilExecCommandLine, hpopen, hx]
    rw [← htrace]
    rfl
  · intro hcode
    by_contra hne
    rw [← hstat] at hne
    simp [utilProcessChildExitCode, hne] at hcode

/-- When the commands of a restore are harmless in their sequence: the last one
succeeds only if the ones before it did and an id was printed. -/
def SwitchNeedsOthers (programs : Programs) (name : List Char) : Prop :=
  (setDefaultResult programs name).status = 0 →
    (safetyResult programs name).status = 0 ∧ (showResult programs name).status = 0 ∧
      (awkResult programs name).status = 0 ∧ idFields (awkResult programs name).output ≠ []

theorem truthful_restoreTrace (programs : Programs) (name : List Char) {code : Int}
    (hcode : code = 0 → (setDefaultResult programs name).status = 0) :
    Truthful name { responseCode := code, trace := restoreTrace programs name } ↔
      SwitchNeedsOthers programs name := by
  constructor
  · intro h hset
    have hswitched := (switched_restoreTrace programs name).mpr hset
    obtain ⟨hsafety, hfound⟩ := h.switched hswitched
    exact ⟨(safetyTaken_restoreTrace programs name).mp hsafety,
      (idFound_restoreTrace programs name).mp hfound⟩
  · intro h
    have hswitched : Switched (restoreTrace programs name) →
        SafetyTaken name (restoreTrace programs name) ∧ IdFound name (restoreTrace programs name) := by
      intro hs
      obtain ⟨hsafety, hfound⟩ := h ((switched_restoreTrace programs name).mp hs)
      exact ⟨(safetyTaken_restoreTrace programs name).mpr hsafety,
        (idFound_restoreTrace programs name).mpr hfound⟩
    have hsuccess : code = 0 → Switched (restoreTrace programs name) := fun hc =>
      (switched_restoreTrace programs name).mpr (hcode hc)
    refine ⟨hswitched, fun hc => ?_, fun hnot => ?_⟩
    · have hs := hsuccess hc
      exact ⟨(hswitched hs).1, (hswitched hs).2, hs⟩
    · have hns : ¬ Switched (restoreTrace programs name) := fun hs =>
        hnot ⟨(hswitched hs).1, (hswitched hs).2, hs⟩
      exact ⟨hns, fun hc => hns (hsuccess hc)⟩

theorem truthful_nothing_run (name : List Char) : Truthful name { responseCode := -1, trace := [] } := by
  have hns : ¬ Switched [] := fun ⟨_, hmem, _⟩ => List.not_mem_nil hmem
  exact ⟨fun hs => absurd hs hns, fun hc => absurd hc (by decide), fun _ => ⟨hns, by decide⟩⟩

/-- A restore is safe and reports the truth exactly when its last command does not
succeed after a failure of one before it. -/
theorem snapshotChild_truthful_iff (host : Host) (programs : Programs) (pid : Nat) (message : Message)
    (haction : message.action = "restore".toList) (hname : '\'' ∉ message.name) :
    (∃ r, snapshotChild host programs pid message = some r ∧ Truthful (snapName pid message) r) ↔
      (host.dup2 = true → host.popen = true → SwitchNeedsOthers programs (snapName pid message)) := by
  by_cases hdup2 : host.dup2 = true
  · by_cases hpopen : host.popen = true
    · obtain ⟨code, hchild, hcode⟩ := snapshotChild_restore programs pid haction hname hdup2 hpopen
      simp only [hchild, Option.some.injEq, exists_eq_left', hdup2, hpopen, forall_const]
      exact truthful_restoreTrace programs _ hcode
    · have hcommand := processSnapshotMessage_restore pid haction
      refine iff_of_true ⟨_, ?_, truthful_nothing_run _⟩ fun _ hp => absurd hp hpopen
      simp only [snapshotChild, hdup2, hcommand, utilExecCommandLine, hpopen]
      rfl
  · refine iff_of_true ⟨_, ?_, truthful_nothing_run _⟩ fun hd => absurd hd hdup2
    simp only [snapshotChild, hdup2]
    rfl

/-- Programs of a guest in which the safety snapshot fails with this status and the
other commands succeed. -/
def guest (safety : Nat) : Programs := fun argv input =>
  if argv.contains "snapshot".toList then { status := safety, output := [] }
  else if argv.contains "show".toList then { status := 0, output := "Subvolume ID: 257\n".toList }
  else if argv.contains "awk".toList then { status := 0, output := (input.drop 14) }
  else { status := 0, output := [] }

def allSucceed : Host := { dup2 := true, popen := true, pclose := true }

def restoreDaily : Message := { scsiLun := 3, action := "restore".toList, name := "daily".toList }

theorem snapshotChild_truthful_daily :
    ∃ r, snapshotChild allSucceed (guest 0) 1 restoreDaily = some r ∧ Truthful "daily".toList r := by
  apply (snapshotChild_truthful_iff allSucceed (guest 0) 1 restoreDaily rfl (by decide)).mpr
  intro _ _ _
  decide +kernel

/-- The safety snapshot fails, and the default subvolume is switched all the same
with success reported. -/
theorem restore_without_safety :
    ∃ r, snapshotChild allSucceed (guest 1) 1 restoreDaily = some r ∧ r.responseCode = 0 ∧
      Switched r.trace ∧ ¬ SafetyTaken "daily".toList r.trace ∧ ¬ Truthful "daily".toList r := by
  refine ⟨{ responseCode := 0, trace := restoreTrace (guest 1) "daily".toList }, ?_, rfl, ?_, ?_, ?_⟩
  · decide +kernel
  · exact (switched_restoreTrace _ _).mpr (by decide +kernel)
  · rw [safetyTaken_restoreTrace]
    decide +kernel
  · rw [truthful_restoreTrace _ _ (fun _ => by decide +kernel)]
    intro h
    have hsafety := (h (by decide +kernel)).1
    revert hsafety
    decide +kernel

end WslPlus.Snapshot
