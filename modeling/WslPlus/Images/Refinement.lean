import WslPlus.Images.Library
import WslPlus.Lib.Transition

/-!
# Names of images

A name that is a single component of a path, and no other spelling of the name of another
image, stays in its own directory, and the library is then the list of the images that
were imported and not removed. Other names reach whatever a path can reach.
-/

namespace WslPlus.Images

open Function List Option Program

/-- A single component without a root name, which the system takes as it stands. -/
structure PlainName (name : Name) : Prop where
  noRoot : Path.splitRoot name = (none, name)
  noSeparator : name.any Path.isSeparator = false
  plain : PlainComponent name

variable {name : Name}

theorem PlainName.ofText (h : PlainName name) : WindowsPath.ofText name = ⟨none, false, [name]⟩ := by
  have hseparator : ∀ c ∈ name, Path.isSeparator c = false := by
    simpa using any_eq_false.mp h.noSeparator
  have hcomponents : Path.components name = [name] := by
    rw [Path.components, splitOnP_eq_singleton hseparator]
    simp [h.plain.ne_nil]
  have hrooted : name.head?.any Path.isSeparator = false := by
    cases name with
    | nil => rfl
    | cons c rest => simpa using hseparator c mem_cons_self
  simp only [WindowsPath.ofText, h.noRoot, hcomponents, hrooted, map_none]

theorem join_plain (p : WindowsPath) (h : PlainName name) :
    p.join (.ofText name) = { p with parts := p.parts ++ [name] } := by
  rw [h.ofText]
  simp [WindowsPath.join]

theorem plainName_of_mem
    (h : name ∈ [".wslplus".toList, "images".toList, rootfsFile, manifestFile]) : PlainName name := by
  simp only [mem_cons, not_mem_nil, or_false] at h
  rcases h with rfl | rfl | rfl | rfl
  · exact ⟨by decide, by decide, 's', by decide, by decide, by decide⟩
  · exact ⟨by decide, by decide, 's', by decide, by decide, by decide⟩
  · exact ⟨by decide, by decide, 'z', by decide, by decide, by decide⟩
  · exact ⟨by decide, by decide, 'l', by decide, by decide, by decide⟩

namespace Host

variable {α : Type} (h : Host α)

def rootPath : Path := h.drive :: (h.profile ++ [".wslplus".toList, "images".toList])

theorem imagesRoot_eq :
    h.imagesRoot = ⟨some h.drive, true, h.profile ++ [".wslplus".toList, "images".toList]⟩ := by
  rw [imagesRoot, join_plain _ (plainName_of_mem (by simp)), join_plain _ (plainName_of_mem (by simp))]
  simp

theorem locate_root_append {names : List Name} (hnames : ∀ n ∈ names, PlainComponent n) :
    h.volume.locate { h.imagesRoot with parts := h.imagesRoot.parts ++ names } = h.rootPath ++ names := by
  have hplain : ∀ n ∈ h.imagesRoot.parts ++ names, PlainComponent n := by
    intro n hn
    rw [imagesRoot_eq] at hn
    simp only [append_assoc, mem_append, mem_cons, not_mem_nil, or_false] at hn
    rcases hn with hn | hn | hn
    · exact h.profile_plain n hn
    · exact (plainName_of_mem (by rcases hn with rfl | rfl <;> simp)).plain
    · exact hnames n hn
  rw [imagesRoot_eq] at hplain ⊢
  simp only [Volume.locate, if_true, getD_some]
  rw [walk_plain hplain]
  simp [rootPath]

theorem locate_imagesRoot : h.volume.locate h.imagesRoot = h.rootPath := by
  have hroot := h.locate_root_append (forall_mem_nil _)
  simpa using hroot

section Names

variable {name : Name} (hname : PlainName name)
include hname

theorem locate_imagePath : h.volume.locate (h.imagePath name) = h.rootPath ++ [name] := by
  rw [imagePath, join_plain _ hname]
  exact h.locate_root_append (by simpa using hname.plain)

theorem locate_file {file : Name} (hfile : PlainName file) :
    h.volume.locate ((h.imagePath name).join (.ofText file)) = h.rootPath ++ [name, file] := by
  rw [imagePath, join_plain _ hname, join_plain _ hfile]
  simp only [append_assoc, singleton_append]
  apply h.locate_root_append
  simpa using ⟨hname.plain, hfile.plain⟩

end Names

def rootKey : Path := h.volume.key h.rootPath

def folder (name : Name) : Path := h.rootKey ++ [h.volume.fold name]

def manifestKey (name : Name) : Path := h.folder name ++ [h.volume.fold manifestFile]

def rootfsKey (name : Name) : Path := h.folder name ++ [h.volume.fold rootfsFile]

theorem key_folder (name : Name) : h.volume.key (h.rootPath ++ [name]) = h.folder name := by
  simp [Volume.key, folder, rootKey]

theorem key_manifest (name : Name) :
    h.volume.key (h.rootPath ++ [name, manifestFile]) = h.manifestKey name := by
  simp [Volume.key, manifestKey, folder, rootKey]

theorem key_rootfs (name : Name) : h.volume.key (h.rootPath ++ [name, rootfsFile]) = h.rootfsKey name := by
  simp [Volume.key, rootfsKey, folder, rootKey]

theorem within_folder_iff (name other : Name) (rest : Path) :
    Path.Within (h.folder name) (h.folder other ++ rest) ↔ h.volume.fold name = h.volume.fold other := by
  simp [Path.Within, folder, prefix_append_right_inj]

theorem length_folder (name : Name) : (h.folder name).length = h.rootKey.length + 1 := by simp [folder]

theorem length_manifestKey (name : Name) : (h.manifestKey name).length = h.rootKey.length + 2 := by
  simp [manifestKey, folder]

variable {name : Name}

theorem not_within_folder {k : Path} (hk : k.length ≤ h.rootKey.length) : ¬ Path.Within (h.folder name) k := by
  intro hwithin
  have hlen := hwithin.length_le
  rw [length_folder] at hlen
  omega

/-- What the directory of the library has: one directory for a name, with a manifest in it exactly
for the images in the library. -/
structure Holds (names : Name → Prop) (library : Name → Option ImageManifest) (files : Files α) :
    Prop where
  root : ∀ e, files.lookup h.rootKey = some e → e.node = .directory
  folders : ∀ x e, files.lookup (h.rootKey ++ [x]) = some e →
    (files.lookup h.rootKey).isSome ∧ ∃ n, names n ∧ x = h.volume.fold n ∧ e = ⟨n, .directory⟩
  manifests : ∀ n, names n → ∀ e, files.lookup (h.manifestKey n) = some e →
    ∃ m, library n = some m ∧ m.name = n ∧ e.node = .file (h.yaml.emit m.node)
  images : ∀ n m, library n = some m →
    names n ∧ (files.lookup (h.folder n)).isSome ∧ (files.lookup (h.manifestKey n)).isSome

def EmptyLibrary (files : Files α) : Prop :=
  ∀ k e, files.lookup k = some e → Path.Within h.rootKey k → k = h.rootKey ∧ e.node = .directory

variable {h} {names : Name → Prop} {library : Name → Option ImageManifest} {files : Files α}

theorem holds_of_empty (hempty : h.EmptyLibrary files) : h.Holds names (fun _ => none) files where
  root e he := (hempty _ e he prefix_rfl).2
  folders x e he := by
    have hlen := congrArg List.length (hempty _ e he (prefix_append _ _)).1
    simp at hlen
  manifests n _ e he := by
    have hwithin : Path.Within h.rootKey (h.manifestKey n) := by
      rw [manifestKey, folder, append_assoc]
      exact prefix_append _ _
    have hlen := congrArg List.length (hempty _ e he hwithin).1
    rw [length_manifestKey] at hlen
    omega
  images n m hm := by cases hm

theorem Holds.name_eq (hh : h.Holds names library files) {n : Name} {m : ImageManifest}
    (hm : library n = some m) : m.name = n := by
  obtain ⟨hn, -, hmanifest⟩ := hh.images n m hm
  obtain ⟨e, he⟩ := isSome_iff_exists.mp hmanifest
  obtain ⟨m', hm', hname, -⟩ := hh.manifests n hn e he
  rw [hm] at hm'
  rw [Option.some.inj hm', hname]

section Insert

variable {k : Path} {e : Entry α}

theorem isSome_lookup_insert {k' : Path} (hk : (files.lookup k').isSome) :
    ((files.insert k e).lookup k').isSome := by
  by_cases heq : k' = k
  · subst heq
    simp
  · rwa [AList.lookup_insert_ne heq]

section

variable (hh : h.Holds names library files)
include hh

theorem Holds.insert {library' : Name → Option ImageManifest}
    (hroot : k = h.rootKey → e.node = .directory) (hfolders : ∀ x, k = h.rootKey ++ [x] →
      (files.lookup h.rootKey).isSome ∧ ∃ n, names n ∧ x = h.volume.fold n ∧ e = ⟨n, .directory⟩)
    (hmanifests : ∀ n, names n → k = h.manifestKey n →
      ∃ m, library' n = some m ∧ m.name = n ∧ e.node = .file (h.yaml.emit m.node))
    (hothers : ∀ n, k ≠ h.manifestKey n → library' n = library n)
    (himages : ∀ n m, k = h.manifestKey n → library' n = some m →
      names n ∧ (files.lookup (h.folder n)).isSome) :
    h.Holds names library' (files.insert k e) where
  root e' he' := by
    by_cases heq : h.rootKey = k
    · subst heq
      rw [AList.lookup_insert] at he'
      rw [← Option.some.inj he']
      exact hroot rfl
    · rw [AList.lookup_insert_ne heq] at he'
      exact hh.root e' he'
  folders x e' he' := by
    by_cases heq : h.rootKey ++ [x] = k
    · obtain ⟨hsome, hn⟩ := hfolders x heq.symm
      subst heq
      rw [AList.lookup_insert] at he'
      rw [← Option.some.inj he']
      exact ⟨isSome_lookup_insert hsome, hn⟩
    · rw [AList.lookup_insert_ne heq] at he'
      obtain ⟨hsome, hn⟩ := hh.folders x e' he'
      exact ⟨isSome_lookup_insert hsome, hn⟩
  manifests n hn e' he' := by
    by_cases heq : h.manifestKey n = k
    · obtain ⟨m, hm⟩ := hmanifests n hn heq.symm
      subst heq
      rw [AList.lookup_insert] at he'
      rw [← Option.some.inj he']
      exact ⟨m, hm⟩
    · rw [AList.lookup_insert_ne heq] at he'
      rw [hothers n (Ne.symm heq)]
      exact hh.manifests n hn e' he'
  images n m hm := by
    by_cases heq : h.manifestKey n = k
    · obtain ⟨hn, hfolder⟩ := himages n m heq.symm hm
      subst heq
      exact ⟨hn, isSome_lookup_insert hfolder, by simp⟩
    · rw [hothers n (Ne.symm heq)] at hm
      obtain ⟨hn, hfolder, hmanifest⟩ := hh.images n m hm
      exact ⟨hn, isSome_lookup_insert hfolder, isSome_lookup_insert hmanifest⟩

theorem Holds.insert_other (hroot : k = h.rootKey → e.node = .directory)
    (hfolders : ∀ x, k = h.rootKey ++ [x] →
      (files.lookup h.rootKey).isSome ∧ ∃ n, names n ∧ x = h.volume.fold n ∧ e = ⟨n, .directory⟩)
    (hk : ∀ n, k ≠ h.manifestKey n) : h.Holds names library (files.insert k e) := by
  apply hh.insert hroot hfolders
  · intro n _ heq
    exact absurd heq (hk n)
  · intro n _
    rfl
  · intro n m heq
    exact absurd heq (hk n)

theorem Holds.insert_outside (hk : k.length ≤ h.rootKey.length)
    (he : e.node = .directory) : h.Holds names library (files.insert k e) := by
  apply hh.insert_other
  · intro _
    exact he
  · intro x heq
    rw [heq, length_append, length_singleton] at hk
    omega
  · intro n heq
    rw [heq, length_manifestKey] at hk
    omega

theorem Holds.insert_folder {name : Name} (hname : names name)
    (hroot : (files.lookup h.rootKey).isSome) :
    h.Holds names library (files.insert (h.folder name) ⟨name, .directory⟩) := by
  apply hh.insert_other
  · intro _
    rfl
  · intro x heq
    rw [folder, append_cancel_left_eq, singleton_inj] at heq
    exact ⟨hroot, name, hname, heq.symm, rfl⟩
  · intro n heq
    have hlen := congrArg List.length heq
    rw [length_manifestKey, length_folder] at hlen
    omega

theorem Holds.insert_rootfs (name : Name) :
    h.Holds names library (files.insert (h.rootfsKey name) e) := by
  have hlen : (h.rootfsKey name).length = h.rootKey.length + 2 := by simp [rootfsKey, folder]
  apply hh.insert_other
  · intro heq
    rw [heq] at hlen
    omega
  · intro x heq
    rw [heq, length_append, length_singleton] at hlen
    omega
  · intro n heq
    have hlast := congrArg List.getLast? heq
    rw [rootfsKey, manifestKey, getLast?_concat, getLast?_concat] at hlast
    exact h.files_differ (Option.some.inj hlast)

theorem Holds.insert_manifest
    (hdistinct : ∀ n n', names n → names n' → h.volume.fold n = h.volume.fold n' → n = n')
    {m : ImageManifest} (hname : names m.name) (hfolder : (files.lookup (h.folder m.name)).isSome)
    (he : e.node = .file (h.yaml.emit m.node)) :
    h.Holds names (update library m.name (some m)) (files.insert (h.manifestKey m.name) e) := by
  have hfold : ∀ n, h.manifestKey m.name = h.manifestKey n → h.volume.fold n = h.volume.fold m.name := by
    intro n heq
    rw [manifestKey, manifestKey, append_cancel_right_eq, folder, folder,
      append_cancel_left_eq, singleton_inj] at heq
    exact heq.symm
  have hlen := h.length_manifestKey m.name
  apply hh.insert
  · intro heq
    rw [heq] at hlen
    omega
  · intro x heq
    rw [heq, length_append, length_singleton] at hlen
    omega
  · intro n hn heq
    obtain rfl := hdistinct n _ hn hname (hfold n heq)
    exact ⟨m, update_self .., rfl, he⟩
  · intro n hne
    have hn : n ≠ m.name := fun heq => hne (by rw [heq])
    rw [update_of_ne hn]
  · intro n m' heq hm'
    by_cases hn : n = m.name
    · subst hn
      exact ⟨hname, hfolder⟩
    · rw [update_of_ne hn] at hm'
      have hnames := (hh.images n m' hm').1
      exact absurd (hdistinct n _ hnames hname (hfold n heq)) hn

end

end Insert

theorem Holds.without (hh : h.Holds names library files)
    (hdistinct : ∀ n n', names n → names n' → h.volume.fold n = h.volume.fold n' → n = n')
    (hname : names name) :
    h.Holds names (update library name none) (files.without (h.folder name)) := by
  have hroot : (files.without (h.folder name)).lookup h.rootKey = files.lookup h.rootKey := by
    rw [Files.lookup_without, if_neg (h.not_within_folder (Nat.le_refl _))]
  have hother : ∀ n rest, h.volume.fold n ≠ h.volume.fold name →
      (files.without (h.folder name)).lookup (h.folder n ++ rest) = files.lookup (h.folder n ++ rest) := by
    intro n rest hne
    rw [Files.lookup_without, if_neg]
    rw [within_folder_iff]
    exact Ne.symm hne
  have hgone : ∀ n rest, h.volume.fold n = h.volume.fold name →
      (files.without (h.folder name)).lookup (h.folder n ++ rest) = none := by
    intro n rest heq
    rw [Files.lookup_without, if_pos]
    rw [within_folder_iff]
    exact heq.symm
  constructor
  · intro e he
    rw [hroot] at he
    exact hh.root e he
  · intro x e he
    rw [hroot]
    rw [Files.lookup_without] at he
    split at he
    · cases he
    · exact hh.folders x e he
  · intro n hn e he
    by_cases heq : h.volume.fold n = h.volume.fold name
    · rw [manifestKey, hgone n _ heq] at he
      cases he
    · rw [manifestKey, hother n _ heq] at he
      rw [update_of_ne fun hn => heq (by rw [hn])]
      exact hh.manifests n hn e he
  · intro n m hm
    have hne : n ≠ name := by
      rintro rfl
      rw [update_self] at hm
      cases hm
    rw [update_of_ne hne] at hm
    obtain ⟨hn, hfolder, hmanifest⟩ := hh.images n m hm
    have hfold : h.volume.fold n ≠ h.volume.fold name := fun heq => hne (hdistinct n name hn hname heq)
    have hfolder' := hother n [] hfold
    rw [append_nil] at hfolder'
    rw [hfolder', manifestKey, hother n _ hfold]
    exact ⟨hn, hfolder, hmanifest⟩

variable (h) in
/-- An access to what is in the directory of a name; the directories on the way to the library may
be made. -/
def Stays (name : Name) (a : Access) : Prop :=
  Path.Within (h.folder name) a.key ∨ ∃ k, a = .create k ∧ k <+: h.rootKey

variable (h) in
def During (names : Name → Prop) (name : Name) (library : Name → Option ImageManifest) (d : Disk α) : Prop :=
  h.Holds names library d.files ∧ ∀ a ∈ d.log, h.Stays name a

theorem stays_concat {log : List Access} {a : Access} (hlog : ∀ b ∈ log, h.Stays name b)
    (ha : h.Stays name a) : ∀ b ∈ log ++ [a], h.Stays name b := by
  intro b hb
  rcases mem_append.mp hb with hb | hb
  · exact hlog b hb
  · rw [mem_singleton.mp hb]
    exact ha

section Call

variable {name : Name} (hplain : PlainName name) (hname : names name)
include hplain hname

theorem triple_createDirectories :
    Triple (h.During names name library) (createDirectories h.volume (h.volume.locate (h.imagePath name)))
      (fun _ => h.During names name library) fun _ => h.During names name library := by
  apply WslPlus.triple_createDirectories
  rintro q c hqc d ⟨hh, hlog⟩ hdir -
  rw [h.locate_imagePath hplain] at hqc
  rcases prefix_concat_iff.mp hqc with heq | hfront
  · -- the directory of the image, in the directory of the library
    obtain ⟨rfl, hc⟩ := append_inj' heq rfl
    obtain rfl := singleton_inj.mp hc
    have hroot : (d.files.lookup h.rootKey).isSome := by
      obtain ⟨shown, hfind⟩ := find_of_isDirectory (by simp [rootPath]) hdir
      change d.files.lookup h.rootKey = _ at hfind
      rw [hfind]
      rfl
    have hcreate : d.create h.volume (h.rootPath ++ [c]) =
        ⟨d.files.insert (h.folder c) ⟨c, .directory⟩, d.log ++ [Access.create (h.folder c)]⟩ := by
      simp [Disk.create, Disk.put, h.key_folder]
    rw [hcreate]
    exact ⟨hh.insert_folder hname hroot, stays_concat hlog (.inl prefix_rfl)⟩
  · have hkey : h.volume.key (q ++ [c]) <+: h.rootKey := hfront.map _
    exact ⟨hh.insert_outside hkey.length_le rfl, stays_concat hlog (.inr ⟨_, rfl, hkey⟩)⟩

omit hname in
theorem triple_copyFile (tar : Path) :
    Triple (h.During names name library)
      (copyFile h.volume tar (h.volume.locate ((h.imagePath name).join (.ofText rootfsFile))))
      (fun _ => h.During names name library) fun _ => h.During names name library := by
  rw [h.locate_file hplain (plainName_of_mem (by simp))]
  apply WslPlus.triple_copyFile
  rintro d shown content ⟨hh, hlog⟩ -
  rw [Disk.write, Disk.put, h.key_rootfs]
  refine ⟨hh.insert_rootfs name, stays_concat hlog (.inl ?_)⟩
  exact prefix_append _ _

section Changes

variable (hdistinct : ∀ n n', names n → names n' → h.volume.fold n = h.volume.fold n' → n = n')
include hdistinct

theorem triple_writeManifest {m : ImageManifest} (hm : m.name = name) :
    Triple (h.During names name library)
      (writeFile h.volume (h.volume.locate (h.manifestPath name)) (h.yaml.emit m.node))
      (fun _ => h.During names name (update library name (some m)))
      fun _ => h.During names name library := by
  rw [manifestPath, h.locate_file hplain (plainName_of_mem (by simp))]
  apply WslPlus.triple_writeFile
  rintro d shown ⟨hh, hlog⟩ hdir
  have hfolder : (d.files.lookup (h.folder name)).isSome := by
    have hparent : (h.rootPath ++ [name, manifestFile]).dropLast = h.rootPath ++ [name] := by simp
    rw [hparent] at hdir
    obtain ⟨shown, hfind⟩ := find_of_isDirectory (by simp [rootPath]) hdir
    rw [Disk.find, h.key_folder] at hfind
    rw [hfind]
    rfl
  rw [Disk.write, Disk.put, h.key_manifest]
  subst hm
  refine ⟨hh.insert_manifest hdistinct hname hfolder rfl, stays_concat hlog (.inl ?_)⟩
  exact prefix_append _ _

theorem triple_importImage (fails : ImportStep → Bool) (now : UInt32) (tarPath : List Char)
    (description : Option (List Char)) :
    Triple (h.During names name library) (h.importImage fails now tarPath name description)
      (fun m => h.During names name (update library name (some m)))
      fun _ => h.During names name library := by
  have hrefuse : ∀ step, Triple (h.During names name library)
      (when (fails step) (throw Failure.fileSystem)) (fun _ => h.During names name library)
      fun _ => h.During names name library :=
    fun step => .when (fun _ => .throw fun _ hd => hd) fun _ hd => hd
  unfold importImage
  refine Triple.bind (Q := fun _ => h.During names name library) (fun d hd => hd) fun d => ?_
  dsimp only
  split
  · exact .throw fun _ hd => hd
  refine (hrefuse _).bind fun _ => ?_
  refine (h.triple_createDirectories hplain hname).bind fun _ => ?_
  refine (hrefuse _).bind fun _ => ?_
  refine (triple_copyFile hplain _).bind fun _ => ?_
  refine Triple.bind (Q := fun _ => h.During names name library) ?_ fun _ => ?_
  · unfold validate
    split
    · exact .throw fun _ hd => hd
    split
    · exact .throw fun _ hd => hd
    · exact .pure fun _ hd => hd
  refine (hrefuse _).bind fun _ => ?_
  refine (triple_writeManifest hplain hname hdistinct rfl).bind fun _ => ?_
  exact .pure fun _ hd => hd

theorem triple_remove (denied : Bool) :
    Triple (h.During names name library) (h.remove denied name)
      (fun _ => h.During names name (update library name none))
      fun _ => h.During names name library := by
  unfold remove
  refine Triple.bind (Q := fun _ => h.During names name library) (fun d hd => hd) fun d => ?_
  split
  · exact .throw fun _ hd => hd
  refine Triple.bind (Q := fun _ => h.During names name library) ?_ fun _ => ?_
  · exact .when (fun _ => .throw fun _ hd => hd) fun _ hd => hd
  rintro d ⟨hh, hlog⟩
  rw [removeAll, exec_modify, h.locate_imagePath hplain, Disk.delete, h.key_folder]
  refine ⟨hh.without hdistinct hname, ?_⟩
  intro a ha
  rcases mem_append.mp ha with ha | ha
  · exact hlog a ha
  · obtain ⟨k, hk, rfl⟩ := mem_map.mp ha
    exact .inl (of_decide_eq_true (mem_filter.mp hk).2)

end Changes

omit hname in
theorem triple_read :
    Triple (h.During names name library) (h.read name) (fun _ => h.During names name library)
      fun _ => h.During names name library := by
  unfold read
  refine Triple.bind (Q := fun _ => h.During names name library) (fun d hd => hd) fun d => ?_
  rw [manifestPath, h.locate_file hplain (plainName_of_mem (by simp)), h.key_manifest]
  split
  · exact .throw fun _ hd => hd
  split
  · refine Triple.bind (Q := fun _ => h.During names name library) ?_ fun _ => ?_
    · rintro d ⟨hh, hlog⟩
      exact ⟨hh, stays_concat hlog (.inl (prefix_append _ _))⟩
    split
    · exact .throw fun _ hd => hd
    split
    · exact .throw fun _ hd => hd
    · exact .pure fun _ hd => hd
  · exact .throw fun _ hd => hd

end Call

theorem during_libraryAfter {β : Type} {m : Program (Disk α) Failure β} {image : β → Option ImageManifest}
    (hm : Triple (h.During names name library) m
      (fun b => h.During names name (update library name (image b)))
      fun _ => h.During names name library) {d : Disk α} (hd : h.During names name library d) :
    h.During names name (libraryAfter library name image (exec m d).1) (exec m d).2 := by
  have hend := hm d hd
  rcases hr : exec m d with ⟨r, d'⟩
  rw [hr] at hend
  cases r with
  | ok b => exact hend
  | error e => exact hend

variable {s : State α}

theorem during_step {c : Call} (hplain : PlainName c.name) (hname : names c.name)
    (hdistinct : ∀ n n', names n → names n' → h.volume.fold n = h.volume.fold n' → n = n')
    (hs : h.Holds names s.library s.disk.files) :
    h.During names c.name (h.step c s).library (h.step c s).disk := by
  have hstart : h.During names c.name s.library { s.disk with log := [] } := ⟨hs, by simp⟩
  cases c with
  | importImage fails now tarPath name description =>
    exact during_libraryAfter (triple_importImage hplain hname hdistinct _ _ _ _) hstart
  | read name => exact Triple.state (triple_read hplain) hstart
  | remove denied name =>
    exact during_libraryAfter (triple_remove hplain hname hdistinct denied) hstart

def manifestIn (h : Host α) (files : Files α) (name : Name) : Option ImageManifest := do
  let e ← files.lookup (h.volume.key (h.volume.locate (h.manifestPath name)))
  if h.hasNarrow (h.manifestPath name) then
    match e.node with
    | .directory => none
    | .file content => (h.yaml.load content).map .ofNode
  else none

theorem exec_read (name : Name) (d : Disk α) :
    ∃ log, exec (attempt (h.read name)) d = (.ok (h.manifestIn d.files name), { d with log := log }) := by
  simp only [attempt, exec_ofFunction, read, manifestIn, exec_bind, exec_get, andThen, Disk.find]
  cases d.files.lookup (h.volume.key (h.volume.locate (h.manifestPath name))) with
  | none => exact ⟨_, rfl⟩
  | some e =>
    cases h.hasNarrow (h.manifestPath name) with
    | false => exact ⟨_, rfl⟩
    | true =>
      obtain ⟨shown, node⟩ := e
      cases node with
      | directory => exact ⟨_, rfl⟩
      | file content =>
        simp only [if_true, exec_bind, exec_modify, andThen, bind_eq_bind, bind_some]
        cases h.yaml.load content with
        | none => exact ⟨_, rfl⟩
        | some node => exact ⟨_, rfl⟩

variable (h) in
/-- The manifest that `List` takes from an entry. -/
def listed (files : Files α) (e : Entry α) : Option ImageManifest :=
  if e.node.isDirectory then h.manifestIn files e.shown else none

theorem exec_collect (entries : List (Entry α)) (d : Disk α) :
    ∃ log, exec (h.collect entries) d =
      (.ok (entries.filterMap (h.listed d.files)), { d with log := log }) := by
  induction entries generalizing d with
  | nil => exact ⟨d.log, rfl⟩
  | cons e es ih =>
    rw [collect, exec_bind, exec_get]
    simp only [andThen]
    split
    · next hdir =>
      have hlisted : h.listed d.files e = h.manifestIn d.files e.shown :=
        if_pos (Bool.and_eq_true_iff.mp hdir).1
      obtain ⟨log, hread⟩ := h.exec_read e.shown d
      obtain ⟨log', hrest⟩ := ih { d with log := log }
      rw [exec_bind, hread]
      simp only [andThen]
      rw [exec_bind, hrest]
      refine ⟨log', ?_⟩
      simp only [andThen, exec_pure, filterMap_cons, hlisted]
      cases h.manifestIn d.files e.shown <;> rfl
    · next hdir =>
      have hlisted : h.listed d.files e = none := by
        unfold listed
        split
        · next hnode =>
          have hmissing : d.files.lookup (h.volume.key (h.volume.locate (h.manifestPath e.shown))) = none := by
            simpa [hnode, Disk.find] using hdir
          simp [manifestIn, hmissing]
        · rfl
      rw [filterMap_cons_none hlisted]
      exact ih d

section List

variable (hh : h.Holds names library files) (hplain : ∀ n, names n → PlainName n)
  (hnarrow : ∀ n, names n → h.hasNarrow (h.manifestPath n) = true)
include hh hplain hnarrow

theorem listed_eq {n : Name} (hn : names n) : h.listed files ⟨n, .directory⟩ = library n := by
  have hkey : h.volume.key (h.volume.locate (h.manifestPath n)) = h.manifestKey n := by
    rw [manifestPath, h.locate_file (hplain n hn) (plainName_of_mem (by simp)), h.key_manifest]
  simp only [listed, Node.isDirectory, if_true, manifestIn, hnarrow n hn]
  rw [hkey]
  cases hlookup : files.lookup (h.manifestKey n) with
  | none =>
    cases hm : library n with
    | none => rfl
    | some m =>
      have hsome := (hh.images n m hm).2.2
      rw [hlookup] at hsome
      cases hsome
  | some e =>
    obtain ⟨m, hm, -, hnode⟩ := hh.manifests n hn e hlookup
    simp [hnode, h.yaml.round_trip, ImageManifest.ofNode_node, hm]

omit hplain hnarrow in
theorem children_pairwise : (files.children h.rootKey).Pairwise fun e e' => e.shown ≠ e'.shown := by
  rw [Files.children, pairwise_filterMap]
  have hkeys : files.entries.Pairwise fun e e' => e.1 ≠ e'.1 := nodupKeys_iff_pairwise.mp files.nodupKeys
  refine hkeys.imp_of_mem ?_
  have hshow : ∀ k e b, Sigma.mk k e ∈ files.entries →
      (if k ≠ [] ∧ k.dropLast = h.rootKey then some e else none) = some b → k = h.folder b.shown := by
    intro k e b hmem hb
    split at hb
    · next hk =>
      obtain rfl := Option.some.inj hb
      obtain ⟨hne, hroot⟩ := hk
      have hconcat := dropLast_append_getLast hne
      rw [hroot] at hconcat
      obtain ⟨x, rfl⟩ : ∃ x, k = h.rootKey ++ [x] := ⟨_, hconcat.symm⟩
      obtain ⟨-, n, -, rfl, rfl⟩ := hh.folders x e (AList.mem_lookup_iff.mpr hmem)
      rfl
    · cases hb
  rintro ⟨k, e⟩ ⟨k', e'⟩ hmem hmem' hne b hb b' hb' heq
  apply hne
  rw [hshow k e b hmem hb, hshow k' e' b' hmem' hb', heq]

theorem mem_listed_iff (hdistinct : ∀ n n', names n → names n' → h.volume.fold n = h.volume.fold n' → n = n')
    {m : ImageManifest} :
    m ∈ (files.children h.rootKey).filterMap (h.listed files) ↔ ∃ n, library n = some m := by
  rw [mem_filterMap]
  constructor
  · rintro ⟨e, he, hm⟩
    obtain ⟨x, hx⟩ := Files.mem_children.mp he
    obtain ⟨-, n, hn, -, rfl⟩ := hh.folders x e hx
    rw [listed_eq hh hplain hnarrow hn] at hm
    exact ⟨n, hm⟩
  · rintro ⟨n, hm⟩
    obtain ⟨hn, hfolder, -⟩ := hh.images n m hm
    obtain ⟨e, he⟩ := isSome_iff_exists.mp hfolder
    obtain ⟨-, n', hn', hfold, rfl⟩ := hh.folders _ e he
    obtain rfl := hdistinct n n' hn hn' hfold
    exact ⟨_, Files.mem_children.mpr ⟨_, he⟩, by rw [listed_eq hh hplain hnarrow hn, hm]⟩

theorem listed_pairwise :
    ((files.children h.rootKey).filterMap (h.listed files)).Pairwise fun m m' => m.name ≠ m'.name := by
  rw [pairwise_filterMap]
  have hname : ∀ e ∈ files.children h.rootKey, ∀ m, h.listed files e = some m → m.name = e.shown := by
    intro e he m hm
    obtain ⟨x, hx⟩ := Files.mem_children.mp he
    obtain ⟨-, n, hn, -, rfl⟩ := hh.folders x e hx
    rw [listed_eq hh hplain hnarrow hn] at hm
    exact hh.name_eq hm
  refine (children_pairwise hh).imp_of_mem ?_
  intro e e' he he' hne m hm m' hm'
  rw [hname e he m hm, hname e' he' m' hm']
  exact hne

end List

variable (h) in
/-- `List` returns one manifest for each image that was imported and not removed since, under the
name of its import, and no others. -/
def Lists (s : State α) : Prop :=
  ∃ ms, (exec h.list s.disk).1 = .ok ms ∧ (ms.Pairwise fun m m' => m.name ≠ m'.name) ∧
    (∀ m, m ∈ ms ↔ ∃ n, s.library n = some m) ∧ ∀ n m, s.library n = some m → m.name = n

variable (h) in
def Confined (names : Name → Prop) (c : Call) (s : State α) : Prop :=
  ∀ a ∈ s.disk.log, h.Stays c.name a ∧ ∀ n, names n → n ≠ c.name → ¬ Path.Within (h.folder n) a.key

theorem lists_of_holds (hplain : ∀ n, names n → PlainName n)
    (hnarrow : ∀ n, names n → h.hasNarrow (h.manifestPath n) = true)
    (hdistinct : ∀ n n', names n → names n' → h.volume.fold n = h.volume.fold n' → n = n')
    (hh : h.Holds names s.library s.disk.files) : h.Lists s := by
  have hfind : s.disk.find h.volume (h.volume.locate h.imagesRoot) = s.disk.files.lookup h.rootKey := by
    rw [h.locate_imagesRoot]
    rfl
  have hkey : h.volume.key (h.volume.locate h.imagesRoot) = h.rootKey := by
    rw [h.locate_imagesRoot]
    rfl
  cases hroot : s.disk.files.lookup h.rootKey with
  | none =>
    refine ⟨[], ?_, .nil, ?_, fun n m => hh.name_eq⟩
    · rw [list, exec_bind, exec_get]
      simp only [andThen, hfind, hroot]
      rfl
    · intro m
      simp only [not_mem_nil, false_iff]
      rintro ⟨n, hm⟩
      obtain ⟨-, hfolder, -⟩ := hh.images n m hm
      obtain ⟨e, he⟩ := isSome_iff_exists.mp hfolder
      have hsome := (hh.folders _ e he).1
      rw [hroot] at hsome
      cases hsome
  | some e =>
    obtain ⟨shown, node⟩ := e
    obtain rfl : node = .directory := hh.root _ hroot
    obtain ⟨log, hcollect⟩ := h.exec_collect (s.disk.files.children h.rootKey) s.disk
    refine ⟨_, ?_, listed_pairwise hh hplain hnarrow, fun m => mem_listed_iff hh hplain hnarrow hdistinct,
      fun n m => hh.name_eq⟩
    rw [list, exec_bind, exec_get]
    simp only [andThen, hfind, hroot, hkey, hcollect]

theorem confined_of_during (hdistinct : ∀ n n', names n → names n' → h.volume.fold n = h.volume.fold n' → n = n')
    {c : Call} (hname : names c.name) (hs : h.During names c.name library s.disk) : h.Confined names c s := by
  intro a ha
  refine ⟨hs.2 a ha, ?_⟩
  intro n hn hne hwithin
  rcases hs.2 a ha with hown | ⟨k, rfl, hk⟩
  · obtain ⟨rest, hrest⟩ := hown
    rw [← hrest, within_folder_iff] at hwithin
    exact hne (hdistinct n _ hn hname hwithin)
  · exact h.not_within_folder hk.length_le hwithin

end Host

def usedNames (calls : List Call) (n : Name) : Prop := ∃ c ∈ calls, c.name = n

def startState {α : Type} (files : Files α) : State α := ⟨⟨files, []⟩, fun _ => none⟩

/-- With plain names, of which no two name one directory, every call of a run stays in the directory
of its name, and after each of them the list is that of the images imported and not removed. -/
theorem library_of_plain_names {α : Type} (h : Host α) (calls : List Call) (files : Files α)
    (hempty : h.EmptyLibrary files)
    (hplain : ∀ c ∈ calls, PlainName c.name ∧ h.hasNarrow (h.manifestPath c.name) = true)
    (hdistinct : ∀ c ∈ calls, ∀ c' ∈ calls,
      h.volume.fold c.name = h.volume.fold c'.name → c.name = c'.name) :
    h.Lists (startState files) ∧
      Along h.step (fun _ c s => h.Confined (usedNames calls) c s ∧ h.Lists s) calls (startState files) := by
  have hplain' : ∀ n, usedNames calls n → PlainName n := by
    rintro n ⟨c, hc, rfl⟩
    exact (hplain c hc).1
  have hnarrow : ∀ n, usedNames calls n → h.hasNarrow (h.manifestPath n) = true := by
    rintro n ⟨c, hc, rfl⟩
    exact (hplain c hc).2
  have hdistinct' : ∀ n n', usedNames calls n → usedNames calls n' →
      h.volume.fold n = h.volume.fold n' → n = n' := by
    rintro n n' ⟨c, hc, rfl⟩ ⟨c', hc', rfl⟩
    exact hdistinct c hc c' hc'
  let inv : State α → Prop := fun s => h.Holds (usedNames calls) s.library s.disk.files
  have hstart : inv (startState files) := Host.holds_of_empty hempty
  have hstep : ∀ c s, inv s → usedNames calls c.name →
      h.During (usedNames calls) c.name (h.step c s).library (h.step c s).disk :=
    fun c s hs hc => Host.during_step (hplain' _ hc) hc hdistinct' hs
  have hallowed : Allowed h.step (fun c _ => usedNames calls c.name) calls (startState files) :=
    allowed_of_forall (fun c hc _ => ⟨c, hc, rfl⟩) _
  refine ⟨Host.lists_of_holds hplain' hnarrow hdistinct' hstart, ?_⟩
  have hinv : ∀ c s, inv s → usedNames calls c.name → inv (h.step c s) :=
    fun c s hs hc => (hstep c s hs hc).1
  refine along_of_step hinv ?_ hstart hallowed
  intro c s hs hc
  have hduring := hstep c s hs hc
  exact ⟨Host.confined_of_during hdistinct' hc hduring,
    Host.lists_of_holds hplain' hnarrow hdistinct' hduring.1⟩

def sampleHost : Host (YamlNode ⊕ List Char) where
  volume :=
    { fold := Path.lower
      accepts := fun name => name.all fun c => ' ' ≤ c && !"<>:\"/\\|?*".toList.contains c
      current := fun _ => ["C:".toList] }
  drive := "C:".toList
  profile := ["Users".toList, "me".toList]
  profile_plain := by
    simp only [forall_mem_cons]
    exact ⟨⟨'s', rfl, by decide, by decide⟩, ⟨'e', rfl, by decide, by decide⟩, by simp⟩
  narrow := fun _ => true
  yaml := { emit := .inl, load := Sum.getLeft?, round_trip := fun _ => rfl }
  files_differ := by decide

def sampleFiles : Files (YamlNode ⊕ List Char) :=
  AList.singleton ["c:".toList, "a.tar".toList] ⟨"a.tar".toList, .file (.inr "tar".toList)⟩

def importAs (name : String) : Call :=
  .importImage (fun _ => false) 1 "C:\\a.tar".toList name.toList none

theorem sampleFiles_empty : sampleHost.EmptyLibrary sampleFiles := by
  intro k e he hwithin
  have hmem : Sigma.mk k e ∈ sampleFiles.entries := AList.mem_lookup_iff.mp he
  obtain ⟨rfl, -⟩ := Sigma.mk.inj (mem_singleton.mp hmem)
  exact absurd hwithin (by decide)

/-- An image that is imported is listed. -/
theorem library_of_plain_names_import :
    sampleHost.Lists (startState sampleFiles) ∧
    Along sampleHost.step
      (fun _ c s => sampleHost.Confined (usedNames [importAs "debian"]) c s ∧ sampleHost.Lists s)
      [importAs "debian"] (startState sampleFiles) ∧
    (exec sampleHost.list (runSteps sampleHost.step [importAs "debian"] (startState sampleFiles)).disk).1 =
      .ok [⟨"debian".toList, [], "x64".toList, [], 1⟩] := by
  have hrun := library_of_plain_names sampleHost [importAs "debian"] sampleFiles sampleFiles_empty (by
    simp only [forall_mem_singleton]
    exact ⟨⟨by decide, by decide, 'n', by decide, by decide, by decide⟩, by decide⟩) (by simp)
  exact ⟨hrun.1, hrun.2, by decide +kernel⟩

/-- The empty name removes the whole library, and a name with `..` is imported outside of it. -/
theorem names_leave_library :
    (exec sampleHost.list (runSteps sampleHost.step [importAs "debian", .remove false []]
      (startState sampleFiles)).disk).1 = .ok [] ∧
    ¬ sampleHost.Lists (runSteps sampleHost.step [importAs "debian", .remove false []]
      (startState sampleFiles)) ∧
    Access.write ["c:".toList, "users".toList, "me".toList, "desktop".toList, "rootfs.tar.gz".toList] ∈
      (sampleHost.step (importAs "..\\..\\Desktop") (startState sampleFiles)).disk.log ∧
    ¬ sampleHost.Confined (usedNames [importAs "..\\..\\Desktop"]) (importAs "..\\..\\Desktop")
      (sampleHost.step (importAs "..\\..\\Desktop") (startState sampleFiles)) := by
  have hlist : (exec sampleHost.list (runSteps sampleHost.step [importAs "debian", .remove false []]
      (startState sampleFiles)).disk).1 = .ok [] := by decide +kernel
  have himage : ((runSteps sampleHost.step [importAs "debian", .remove false []]
      (startState sampleFiles)).library "debian".toList).isSome := by decide +kernel
  have hwrite : Access.write ["c:".toList, "users".toList, "me".toList, "desktop".toList,
      "rootfs.tar.gz".toList] ∈
      (sampleHost.step (importAs "..\\..\\Desktop") (startState sampleFiles)).disk.log := by decide +kernel
  refine ⟨hlist, ?_, hwrite, ?_⟩
  · rintro ⟨ms, hms, -, hmem, -⟩
    obtain ⟨m, hm⟩ := isSome_iff_exists.mp himage
    rw [hlist] at hms
    obtain rfl := Except.ok.inj hms
    exact not_mem_nil ((hmem m).mpr ⟨_, hm⟩)
  · intro hconfined
    rcases (hconfined _ hwrite).1 with hwithin | ⟨k, hk, -⟩
    · exact absurd hwithin (by decide +kernel)
    · cases hk

end WslPlus.Images
