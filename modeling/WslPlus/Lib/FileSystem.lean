import Mathlib.Data.List.AList
import WslPlus.Lib.Path
import WslPlus.Lib.Program

/-!
# Files under Windows paths

A path is joined from texts as the standard library does it, found on a volume by its
components, and there it names an entry up to the volume's comparison of names. The
operations on a disk keep a record of the entries they create, write, read and delete.
-/

namespace WslPlus

open List

/-- A path in the parts that the standard library tells apart. -/
structure WindowsPath where
  rootName : Option Name
  rooted : Bool
  parts : List Name

namespace WindowsPath

def ofText (text : List Char) : WindowsPath :=
  let (root, rest) := Path.splitRoot text
  { rootName := root.map fun _ => text.take (text.length - rest.length)
    rooted := rest.head?.any Path.isSeparator
    parts := Path.components rest }

/-- `p / q`: an absolute path or one with another root name replaces the path it is joined to, a
rooted one keeps only its root name. -/
def join (p q : WindowsPath) : WindowsPath :=
  if q.rootName.isSome && (q.rooted || q.rootName ≠ p.rootName) then q
  else if q.rooted then { p with rooted := true, parts := q.parts }
  else { p with parts := p.parts ++ q.parts }

end WindowsPath

def trimInner (name : Name) : Name :=
  if name.getLast? = some '.' ∧ name.dropLast.getLast? ≠ some '.' then name.dropLast else name

def trimLast (name : Name) : Name := (name.reverse.dropWhile fun c => c = '.' || c = ' ').reverse

def walk (dir : Path) : List Name → Path
  | [] => dir
  | c :: rest =>
    if c = ['.'] then walk dir rest
    else if c = ['.', '.'] then walk (if dir.length ≤ 1 then dir else dir.dropLast) rest
    else
      let name := if rest = [] then trimLast c else trimInner c
      walk (if name = [] then dir else dir ++ [name]) rest

def PlainComponent (name : Name) : Prop := ∃ c, name.getLast? = some c ∧ c ≠ '.' ∧ c ≠ ' '

variable {name : Name}

theorem PlainComponent.ne_nil (h : PlainComponent name) : name ≠ [] := by
  rintro rfl
  obtain ⟨c, hc, -⟩ := h
  cases hc

theorem PlainComponent.trimInner (h : PlainComponent name) : trimInner name = name := by
  obtain ⟨c, hc, hdot, -⟩ := h
  simp [WslPlus.trimInner, hc, hdot]

theorem PlainComponent.trimLast (h : PlainComponent name) : trimLast name = name := by
  obtain ⟨c, hc, hdot, hblank⟩ := h
  obtain ⟨front, rfl⟩ := getLast?_eq_some_iff.mp hc
  simp [WslPlus.trimLast, hdot, hblank]

theorem walk_plain {names : List Name} (h : ∀ n ∈ names, PlainComponent n) (dir : Path) :
    walk dir names = dir ++ names := by
  induction names generalizing dir with
  | nil => simp [walk]
  | cons c rest ih =>
    obtain ⟨hc, hrest⟩ := forall_mem_cons.mp h
    have hdot : c ≠ ['.'] := by
      rintro rfl
      obtain ⟨d, hd, hne, -⟩ := hc
      exact hne (Option.some.inj hd).symm
    have hdots : c ≠ ['.', '.'] := by
      rintro rfl
      obtain ⟨d, hd, hne, -⟩ := hc
      exact hne (Option.some.inj hd).symm
    simp only [walk, hdot, hdots, if_false, hc.trimInner, hc.trimLast, ite_self, hc.ne_nil]
    rw [ih hrest, append_assoc, singleton_append]

/-- What the file system does with names: `fold` takes two names to one value if they name the same
entry of a directory, and entries are made only under names it accepts. -/
structure Volume where
  fold : Name → Name
  accepts : Name → Bool
  current : Option Name → Path

namespace Volume

variable (v : Volume)

def locate (p : WindowsPath) : Path :=
  if p.rooted then walk [p.rootName.getD ((v.current none).headD [])] p.parts
  else walk (v.current p.rootName) p.parts

def key (p : Path) : Path := p.map v.fold

end Volume

inductive Node (α : Type) where
  | directory
  | file (content : α)

def Node.isDirectory {α : Type} : Node α → Bool
  | .directory => true
  | .file _ => false

/-- An entry of a directory, with its name as it was made. -/
structure Entry (α : Type) where
  shown : Name
  node : Node α

abbrev Files (α : Type) := AList fun _ : Path => Entry α

inductive Access where
  | create (key : Path)
  | write (key : Path)
  | read (key : Path)
  | delete (key : Path)
deriving DecidableEq

def Access.key : Access → Path
  | .create key => key
  | .write key => key
  | .read key => key
  | .delete key => key

structure Disk (α : Type) where
  files : Files α
  log : List Access

inductive Failure where
  | invalidArgument
  | fileNotFound
  | fileSystem
  | conversion
  | yaml
deriving DecidableEq

namespace Files

variable {α : Type}

def without (files : Files α) (key : Path) : Files α :=
  ⟨files.entries.filter fun e => !decide (Path.Within key e.1),
    files.nodupKeys.sublist filter_sublist⟩

theorem lookup_without (files : Files α) (key k : Path) :
    (files.without key).lookup k = if Path.Within key k then none else files.lookup k := by
  apply Option.ext
  intro e
  rw [← Option.mem_def, AList.mem_lookup_iff]
  by_cases h : Path.Within key k
  · simp [without, h]
  · rw [if_neg h, ← Option.mem_def, AList.mem_lookup_iff]
    simp [without, h]

def children (files : Files α) (key : Path) : List (Entry α) :=
  files.entries.filterMap fun e => if e.1 ≠ [] ∧ e.1.dropLast = key then some e.2 else none

theorem mem_children {files : Files α} {key : Path} {e : Entry α} :
    e ∈ files.children key ↔ ∃ name, files.lookup (key ++ [name]) = some e := by
  simp only [children, mem_filterMap]
  constructor
  · rintro ⟨⟨k, e'⟩, hmem, h⟩
    split at h
    · next hk =>
      obtain ⟨hne, rfl⟩ := hk
      obtain rfl := Option.some.inj h
      refine ⟨k.getLast hne, ?_⟩
      rw [dropLast_append_getLast]
      exact AList.mem_lookup_iff.mpr hmem
    · cases h
  · rintro ⟨name, h⟩
    exact ⟨⟨key ++ [name], e⟩, AList.mem_lookup_iff.mp h, by simp⟩

end Files

section Operations

variable {α : Type} (v : Volume)

namespace Disk

def find (d : Disk α) (p : Path) : Option (Entry α) := d.files.lookup (v.key p)

def present (d : Disk α) (p : Path) : Bool := p.length ≤ 1 || (d.find v p).isSome

def isDirectory (d : Disk α) (p : Path) : Bool :=
  p.length ≤ 1 || (d.find v p).any fun e => e.node.isDirectory

def put (d : Disk α) (access : Access) (p : Path) (e : Entry α) : Disk α :=
  { files := d.files.insert (v.key p) e, log := d.log ++ [access] }

def create (d : Disk α) (p : Path) : Disk α :=
  d.put v (.create (v.key p)) p ⟨p.getLast?.getD [], .directory⟩

def write (d : Disk α) (p : Path) (shown : Name) (content : α) : Disk α :=
  d.put v (.write (v.key p)) p ⟨shown, .file content⟩

def delete (d : Disk α) (p : Path) : Disk α :=
  { files := d.files.without (v.key p)
    log := d.log ++ (d.files.keys.filter fun k => decide (Path.Within (v.key p) k)).map .delete }

end Disk

/-- The directories from `dir` on, each made unless it is there. -/
def makeDirectories (dir : Path) : List Name → Program (Disk α) Failure Unit
  | [] => pure ()
  | c :: rest => do
    let d ← get
    match d.find v (dir ++ [c]) with
    | some ⟨_, .directory⟩ => makeDirectories (dir ++ [c]) rest
    | some ⟨_, .file _⟩ => throw .fileSystem
    | none =>
      if v.accepts c then do
        modify fun d => d.create v (dir ++ [c])
        makeDirectories (dir ++ [c]) rest
      else throw .fileSystem

def createDirectories (p : Path) : Program (Disk α) Failure Unit := makeDirectories v (p.take 1) (p.drop 1)

def writeFile (p : Path) (content : α) : Program (Disk α) Failure Unit := do
  let d ← get
  if !d.isDirectory v p.dropLast then throw .fileSystem
  else
    match d.find v p with
    | some ⟨_, .directory⟩ => throw .fileSystem
    | some ⟨shown, .file _⟩ => modify fun d => d.write v p shown content
    | none =>
      if v.accepts (p.getLast?.getD []) then modify fun d => d.write v p (p.getLast?.getD []) content
      else throw .fileSystem

/-- `copy_file` with `overwrite_existing`. -/
def copyFile (source target : Path) : Program (Disk α) Failure Unit := do
  let d ← get
  match d.find v source with
  | some ⟨_, .file content⟩ =>
    if v.key source = v.key target then throw .fileSystem else writeFile v target content
  | _ => throw .fileSystem

def removeAll (p : Path) : Program (Disk α) Failure Unit := modify fun d => d.delete v p

variable {v} {I Q : Disk α → Prop}

open Program

variable {p : Path}

theorem isDirectory_of_find {d : Disk α} {shown : Name}
    (h : d.find v p = some ⟨shown, .directory⟩) : d.isDirectory v p = true := by
  simp [Disk.isDirectory, h, Node.isDirectory]

theorem isDirectory_create (d : Disk α) (p : Path) : (d.create v p).isDirectory v p = true := by
  apply isDirectory_of_find
  exact AList.lookup_insert _

theorem find_of_isDirectory {d : Disk α} (hp : 1 < p.length) (h : d.isDirectory v p = true) :
    ∃ shown, d.find v p = some ⟨shown, .directory⟩ := by
  simp only [Disk.isDirectory, Bool.or_eq_true, decide_eq_true_eq, Option.any_eq_true] at h
  rcases h with h | ⟨⟨shown, node⟩, he, hnode⟩
  · omega
  · cases node with
    | directory => exact ⟨shown, he⟩
    | file content => cases hnode

theorem triple_makeDirectories {names : List Name} (dir : Path)
    (hcreate : ∀ p c, dir <+: p → p ++ [c] <+: dir ++ names → ∀ d, I d → d.isDirectory v p = true →
      d.find v (p ++ [c]) = none → I (d.create v (p ++ [c]))) :
    Triple (fun d => I d ∧ d.isDirectory v dir = true) (makeDirectories v dir names) (fun _ => I)
      fun _ => I := by
  induction names generalizing dir with
  | nil => exact fun d hd => hd.1
  | cons c rest ih =>
    rintro d ⟨hd, hdir⟩
    have hnext := ih (dir ++ [c]) fun p e hp hpe =>
      hcreate p e ((prefix_append dir [c]).trans hp) (by simpa using hpe)
    rw [makeDirectories, exec_bind, exec_get]
    simp only [andThen]
    cases hfind : d.find v (dir ++ [c]) with
    | some e =>
      obtain ⟨shown, node⟩ := e
      cases node with
      | directory => exact hnext d ⟨hd, isDirectory_of_find hfind⟩
      | file content => exact hd
    | none =>
      by_cases haccepts : v.accepts c = true
      · simp only [haccepts, if_true]
        rw [exec_bind, exec_modify]
        refine hnext _ ⟨?_, isDirectory_create d _⟩
        exact hcreate dir c prefix_rfl (by simp) d hd hdir hfind
      · simp only [haccepts]
        exact hd

theorem triple_createDirectories (hcreate : ∀ q c, q ++ [c] <+: p → ∀ d, I d → d.isDirectory v q = true →
      d.find v (q ++ [c]) = none → I (d.create v (q ++ [c]))) :
    Triple I (createDirectories v p) (fun _ => I) fun _ => I := by
  have htriple : Triple (fun d => I d ∧ d.isDirectory v (p.take 1) = true) (createDirectories v p)
      (fun _ => I) fun _ => I := by
    apply triple_makeDirectories
    intro q c _ hqc
    rw [take_append_drop] at hqc
    exact hcreate q c hqc
  refine htriple.imp ?_ (fun _ _ h => h) fun _ _ h => h
  intro d hd
  refine ⟨hd, ?_⟩
  have hlen : (p.take 1).length ≤ 1 := length_take_le 1 p
  rw [Disk.isDirectory, decide_eq_true hlen, Bool.true_or]

theorem triple_writeFile {content : α}
    (hwrite : ∀ d shown, I d → d.isDirectory v p.dropLast = true → Q (d.write v p shown content)) :
    Triple I (writeFile v p content) (fun _ => Q) fun _ => I := by
  intro d hd
  rw [writeFile, exec_bind, exec_get]
  simp only [andThen]
  cases hdir : d.isDirectory v p.dropLast with
  | false => exact hd
  | true =>
    simp only [Bool.not_true, Bool.false_eq_true, if_false]
    cases hfind : d.find v p with
    | some e =>
      obtain ⟨shown, node⟩ := e
      cases node with
      | directory => exact hd
      | file old => exact hwrite d shown hd hdir
    | none =>
      by_cases haccepts : v.accepts (p.getLast?.getD []) = true
      · simp only [haccepts, if_true]
        exact hwrite d _ hd hdir
      · simp only [haccepts]
        exact hd

theorem triple_copyFile {source target : Path}
    (hwrite : ∀ d shown content, I d → d.isDirectory v target.dropLast = true →
      Q (d.write v target shown content)) : Triple I (copyFile v source target) (fun _ => Q) fun _ => I := by
  intro d hd
  rw [copyFile, exec_bind, exec_get]
  simp only [andThen]
  cases hfind : d.find v source with
  | none => exact hd
  | some e =>
    obtain ⟨shown, node⟩ := e
    cases node with
    | directory => exact hd
    | file content =>
      by_cases hsame : v.key source = v.key target
      · simp only [hsame, if_true]
        exact hd
      · simp only [hsame, if_false]
        exact triple_writeFile (fun d shown => hwrite d shown content) d hd

end Operations

end WslPlus
