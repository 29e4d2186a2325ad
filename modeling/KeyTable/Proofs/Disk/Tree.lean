import KeyTable.Proofs.Disk.Files

/-!
# The tree of a disk

What a path leads to depends on the folders it passes and on what its last name
holds.  So it leads to the same file after an operation that keeps these
(`fileNumber_of_keeps`), and what is done through an open handle does not matter
to it (`fileNumber_congr`).

* `fileNumber_of_openOrMake` — a file that was opened is what its path leads to.
* `exists_rename` — a file can be moved over another one, and then the path of the
  other leads to it.
* `find_of_rename` — the path that it had leads to nothing then.
* `Reachable.sound` — on every disk that comes of these operations, a path leads to
  a file that was made.
-/

namespace KeyTable

/-! ## The last name of a path -/

namespace Path

/-- The piece behind the last separator of a text is what becomes longer when more is
written behind the text.  It is empty only if there is no text, or if this ends in the
separator. -/
theorem exists_splitOn (separator : Char) (text : List Char) :
    ∃ front last, text.splitOn separator = front ++ [last] ∧
      (∀ suffix, separator ∉ suffix →
        (text ++ suffix).splitOn separator = front ++ [last ++ suffix]) ∧
      (last = [] → text = [] ∨ text.getLast? = some separator) := by
  by_cases hmem : separator ∈ text
  · obtain ⟨first, rest, htext, hfirst⟩ := List.eq_append_cons_of_mem hmem
    have hshorter : rest.length < text.length := by
      rw [htext, List.length_append, List.length_cons]
      omega
    obtain ⟨front, last, hsplit, hsuffix, hlast⟩ := exists_splitOn separator rest
    rw [htext]
    refine ⟨first :: front, last, ?_, fun suffix hnone => ?_, fun hnil => .inr ?_⟩
    · rw [List.splitOn_append_cons_self_of_not_mem hfirst, hsplit, List.cons_append]
    · rw [List.append_assoc, List.cons_append, List.splitOn_append_cons_self_of_not_mem hfirst,
        hsuffix suffix hnone, List.cons_append]
    · rw [List.getLast?_append, List.getLast?_cons, Option.some_or]
      rcases hlast hnil with rfl | hends
      · rfl
      · rw [hends, Option.getD_some]
  · refine ⟨[], text, List.splitOn_eq_singleton hmem, fun suffix hnone => ?_, .inl⟩
    exact List.splitOn_eq_singleton (List.not_mem_append hmem hnone)
termination_by text.length

/-- A suffix without a slash makes the last name longer. -/
theorem getLast?_names_extended {path : Path} {last suffix : String}
    (hslash : path.endsInSlash = false) (hlast : path.names.getLast? = some last)
    (hsuffix : '/' ∉ suffix.toList) :
    (path.extended suffix).names.getLast? = some (last ++ suffix) := by
  obtain ⟨front, piece, hsplit, hextended, hpiece⟩ := exists_splitOn '/' path.text.toList
  have hne : piece ≠ [] := by
    intro hnil
    rcases hpiece hnil with hempty | hends
    · rw [names, hempty] at hlast
      simp at hlast
    · rw [endsInSlash, hends] at hslash
      simp at hslash
  -- the empty pieces are no names, but the last piece is one
  have hproper : decide (String.ofList piece ≠ "") = true := by simpa using hne
  have hlonger : decide (String.ofList (piece ++ suffix.toList) ≠ "") = true := by simp [hne]
  rw [names, hsplit, List.map_append, List.filter_append, List.map_singleton,
    List.filter_cons, if_pos hproper, List.filter_nil, List.getLast?_concat,
    Option.some_inj] at hlast
  rw [names, extended, String.toList_append, hextended _ hsuffix, List.map_append,
    List.filter_append, List.map_singleton, List.filter_cons, if_pos hlonger, List.filter_nil,
    List.getLast?_concat, String.ofList_append, String.ofList_toList, hlast]

end Path

namespace Disk

variable {disk after : Disk} {path : Path} {place : Place} {number : Nat}

/-! ## Places -/

theorem isOutside_child {folder : Place} {name : String} (h : name ≠ "..") :
    (folder.child name).isOutside = false := by
  simp [Place.child, Place.isOutside, h]

theorem mem_nodes_of_node? (h : disk.node? place = some (.file number)) :
    (place, .file number) ∈ disk.nodes := by
  unfold node? at h
  split at h
  · cases h
  · obtain ⟨found, hfound, hnode⟩ := Option.map_eq_some_iff.mp h
    have hplace : found.1 = place := by simpa using List.find?_some hfound
    rw [← hplace, ← hnode]
    exact List.mem_of_find?_eq_some hfound

/-- To clear a place leaves every other place alone. -/
theorem find?_filter_ne {other : Place} (nodes : List (Place × DiskNode)) (h : other ≠ place) :
    (nodes.filter (·.1 ≠ place)).find? (·.1 = other) = nodes.find? (·.1 = other) := by
  rw [List.find?_filter]
  congr 1
  funext found
  by_cases heq : found.1 = other
  · simp [heq, h]
  · simp [heq]

theorem node?_rebind_of_ne {other : Place} (disk : Disk) (node : DiskNode) (h : other ≠ place) :
    (disk.rebind place node).node? other = disk.node? other := by
  simp only [node?, rebind]
  rw [List.find?_cons_of_neg (by simpa using h.symm), find?_filter_ne disk.nodes h]

theorem node?_rebind_self (disk : Disk) (node : DiskNode) (h : place.isOutside = false) :
    (disk.rebind place node).node? place = some node := by
  simp [node?, rebind, h]

/-! ## Paths that lead to the same file -/

/-- Is every folder of one disk a folder of the other? -/
def KeepsFolders (disk after : Disk) : Prop :=
  ∀ place, disk.node? place = some .folder → after.node? place = some .folder

theorem walk_of_keeps (h : KeepsFolders disk after) {folder : Place} {names : List String}
    (hwalk : disk.walk folder names = .ok place) : after.walk folder names = .ok place := by
  induction names generalizing folder with
  | nil => exact hwalk
  | cons name names ih =>
    unfold walk at hwalk ⊢
    split at hwalk
    · next hdot => rw [if_pos hdot]; exact ih hwalk
    · next hdot =>
      rw [if_neg hdot]
      split at hwalk
      · next hup => rw [if_pos hup]; exact ih hwalk
      · next hup =>
        rw [if_neg hup]
        unfold look at hwalk ⊢
        by_cases hlong : maxNameLength < name.utf8ByteSize
        · rw [if_pos hlong] at hwalk
          cases hwalk
        · rw [if_neg hlong] at hwalk ⊢
          cases hnode : disk.node? (folder.child name) with
          | none => rw [hnode] at hwalk; cases hwalk
          | some node =>
            rw [hnode] at hwalk
            cases node with
            | file number => cases hwalk
            | folder =>
              rw [h _ hnode]
              exact ih hwalk

theorem target_of_keeps (h : KeepsFolders disk after) {target : Target}
    (htarget : disk.target path = .ok target) : after.target path = .ok target := by
  unfold Disk.target at htarget ⊢
  split at htarget
  · cases htarget
  · split at htarget
    · cases htarget
    · next hnul hlong =>
      rw [if_neg hnul, if_neg hlong]
      cases hlast : path.names.getLast? with
      | none =>
        rw [hlast] at htarget
        exact htarget
      | some last =>
        rw [hlast] at htarget
        simp only at htarget ⊢
        cases hwalk : disk.walk [] path.names.dropLast with
        | error error => rw [hwalk] at htarget; cases htarget
        | ok folder =>
          rw [hwalk] at htarget
          rw [walk_of_keeps h hwalk]
          exact htarget

/-- A path that leads to a name in a folder ends in that name. -/
theorem name_of_target {folder : Place} {name : String}
    (h : disk.target path = .ok (.name folder name)) :
    path.names.getLast? = some name ∧ name ≠ ".." := by
  unfold Disk.target at h
  split at h
  · cases h
  · split at h
    · cases h
    · split at h
      · cases h
      · next last hlast =>
        cases hwalk : disk.walk [] path.names.dropLast with
        | error error => rw [hwalk] at h; cases h
        | ok home =>
          rw [hwalk] at h
          simp only [Except.map, Except.ok.injEq] at h
          split at h
          · cases h
          · split at h
            · cases h
            · next hup =>
              cases h
              exact ⟨hlast, hup⟩

/-- The name that a path ends in is a name proper. -/
theorem isOutside_of_target {folder : Place} {name : String}
    (h : disk.target path = .ok (.name folder name)) : (folder.child name).isOutside = false :=
  isOutside_child (name_of_target h).2

theorem look_eq_ok_iff {folder : Place} {name : String} {node : Option DiskNode} :
    disk.look folder name = .ok node ↔
      name.utf8ByteSize ≤ maxNameLength ∧ disk.node? (folder.child name) = node := by
  unfold look
  split
  · next h => simp [Nat.not_le.mpr h]
  · next h => simp [Nat.le_of_not_lt h]

theorem bind_eq_ok_iff {α β : Type} {result : Except DiskError α} {next : α → Except DiskError β}
    {b : β} : (result >>= next) = .ok b ↔ ∃ a, result = .ok a ∧ next a = .ok b := by
  cases result with
  | error error =>
    constructor
    · intro h
      cases h
    · rintro ⟨a, h, -⟩
      cases h
  | ok a =>
    constructor
    · intro h
      exact ⟨a, rfl, h⟩
    · rintro ⟨other, h, hnext⟩
      cases h
      exact hnext

/-- A path leads to a file if its last name is that of the file, in the folder that
the others lead to. -/
theorem fileNumber_eq_ok_iff :
    disk.fileNumber path = .ok number ↔
      ∃ folder name, disk.target path = .ok (.name folder name) ∧ path.endsInSlash = false ∧
        disk.look folder name = .ok (some (.file number)) := by
  constructor
  · intro h
    obtain ⟨node, hfind, hnode⟩ := bind_eq_ok_iff.mp h
    rcases node with - | - | other
    · cases hnode
    · cases hnode
    · cases hnode
      obtain ⟨target, htarget, hname⟩ := bind_eq_ok_iff.mp hfind
      cases target with
      | folder place => cases hname
      | name folder name =>
        obtain ⟨node, hlook, hnode⟩ := bind_eq_ok_iff.mp hname
        rcases node with - | - | other
        · cases hnode
        · cases hnode
        · cases hslash : path.endsInSlash with
          | true => rw [hslash] at hnode; cases hnode
          | false =>
            rw [hslash] at hnode
            cases hnode
            exact ⟨folder, name, htarget, rfl, hlook⟩
  · rintro ⟨folder, name, htarget, hslash, hlook⟩
    have hfind : disk.find path = .ok (some (.file number)) := by
      refine bind_eq_ok_iff.mpr ⟨_, htarget, bind_eq_ok_iff.mpr ⟨_, hlook, ?_⟩⟩
      simp only [hslash]
      rfl
    exact bind_eq_ok_iff.mpr ⟨_, hfind, rfl⟩

/-- A path leads to the same file if the folders are kept and the place of the file is
not given away. -/
theorem fileNumber_of_keeps (h : KeepsFolders disk after)
    (hfile : ∀ place, disk.node? place = some (.file number) →
      after.node? place = some (.file number))
    (hnumber : disk.fileNumber path = .ok number) : after.fileNumber path = .ok number := by
  obtain ⟨folder, name, htarget, hslash, hlook⟩ := fileNumber_eq_ok_iff.mp hnumber
  obtain ⟨hshort, hnode⟩ := look_eq_ok_iff.mp hlook
  exact fileNumber_eq_ok_iff.mpr
    ⟨folder, name, target_of_keeps h htarget, hslash, look_eq_ok_iff.mpr ⟨hshort, hfile _ hnode⟩⟩

theorem node?_congr (h : after.nodes = disk.nodes) (place : Place) :
    after.node? place = disk.node? place := by
  rw [node?, node?, h]

/-- What is done through an open handle does not matter to where a path leads. -/
theorem fileNumber_congr (h : after.nodes = disk.nodes)
    (hnumber : disk.fileNumber path = .ok number) : after.fileNumber path = .ok number :=
  fileNumber_of_keeps (fun place hplace => (node?_congr h place).trans hplace)
    (fun place hplace => (node?_congr h place).trans hplace) hnumber

/-- To read by path is to read the file that the path leads to. -/
theorem read_eq_ok_iff {bytes : Bytes} :
    disk.read path = .ok bytes ↔
      ∃ number, disk.fileNumber path = .ok number ∧ disk.contents number = bytes := by
  unfold read
  cases disk.fileNumber path with
  | error error => simp [Except.map]
  | ok number => simp [Except.map]

/-! ## Files that were made -/

/-- Was every file in the tree made? -/
def Sound (disk : Disk) : Prop :=
  ∀ place number, (place, DiskNode.file number) ∈ disk.nodes → number < disk.files.size

theorem sound_empty : empty.Sound := fun _ _ hmem => absurd hmem List.not_mem_nil

theorem Sound.congr (h : disk.Sound) (hnodes : after.nodes = disk.nodes)
    (hsize : after.files.size = disk.files.size) : after.Sound := by
  intro place number hmem
  rw [hnodes] at hmem
  rw [hsize]
  exact h place number hmem

theorem Sound.lt_of_fileNumber (h : disk.Sound) (hnumber : disk.fileNumber path = .ok number) :
    number < disk.files.size := by
  obtain ⟨folder, name, -, -, hlook⟩ := fileNumber_eq_ok_iff.mp hnumber
  exact h _ _ (mem_nodes_of_node? (look_eq_ok_iff.mp hlook).2)

theorem Sound.rebind (h : disk.Sound) {node : DiskNode}
    (hnode : ∀ number, node = .file number → number < disk.files.size) :
    (disk.rebind place node).Sound := by
  intro other number hmem
  rcases List.mem_cons.mp hmem with hfirst | hrest
  · cases hfirst
    exact hnode number rfl
  · exact h other number (List.mem_filter.mp hrest).1

theorem Sound.made (h : disk.Sound) (file : StoredFile) :
    ({ disk with files := disk.files.push file }.rebind place
      (.file disk.files.size)).Sound := by
  have hpushed : Sound { disk with files := disk.files.push file } := by
    intro other number hmem
    rw [Array.size_push]
    exact Nat.lt_succ_of_lt (h other number hmem)
  refine hpushed.rebind fun number hnumber => ?_
  cases hnumber
  rw [Array.size_push]
  exact Nat.lt_succ_self _

/-! ## Opening a file -/

/-- To open a file for writing is to find it, or to make it. -/
theorem openOrMake_cases {mode : Nat} (h : disk.openOrMake path mode = .ok (number, after)) :
    (disk.fileNumber path = .ok number ∧ after = disk) ∨
      ∃ folder name, disk.target path = .ok (.name folder name) ∧ path.endsInSlash = false ∧
        disk.look folder name = .ok none ∧ number = disk.files.size ∧
        after = { disk with files := disk.files.push (.empty (grantedMode mode)) }.rebind
          (folder.child name) (.file disk.files.size) := by
  obtain ⟨target, htarget, hname⟩ := bind_eq_ok_iff.mp h
  cases target with
  | folder place => cases hname
  | name folder name =>
    cases hslash : path.endsInSlash with
    | true =>
      simp only [hslash] at hname
      cases hname
    | false =>
      simp only [hslash] at hname
      obtain ⟨node, hlook, hnode⟩ := bind_eq_ok_iff.mp hname
      rcases node with - | - | other
      · cases hnode
        exact .inr ⟨folder, name, htarget, rfl, hlook, rfl, rfl⟩
      · cases hnode
      · cases hnode
        exact .inl ⟨fileNumber_eq_ok_iff.mpr ⟨folder, name, htarget, hslash, hlook⟩, rfl⟩

theorem openOrMake_of_fileNumber (h : disk.fileNumber path = .ok number) (mode : Nat) :
    disk.openOrMake path mode = .ok (number, disk) := by
  obtain ⟨folder, name, htarget, hslash, hlook⟩ := fileNumber_eq_ok_iff.mp h
  refine bind_eq_ok_iff.mpr ⟨_, htarget, ?_⟩
  simp only [hslash, Bool.false_eq_true, if_false]
  exact bind_eq_ok_iff.mpr ⟨_, hlook, rfl⟩

/-- Does every place that holds something in one disk hold it in the other? -/
def KeepsNodes (disk after : Disk) : Prop :=
  ∀ place node, disk.node? place = some node → after.node? place = some node

theorem KeepsNodes.fileNumber (h : KeepsNodes disk after)
    (hnumber : disk.fileNumber path = .ok number) : after.fileNumber path = .ok number :=
  fileNumber_of_keeps (fun place => h place _) (fun place => h place _) hnumber

/-- A place that was free can be given to a new file. -/
theorem keepsNodes_made (file : StoredFile) (hfree : disk.node? place = none) :
    KeepsNodes disk ({ disk with files := disk.files.push file }.rebind place
      (.file disk.files.size)) := by
  intro other node hnode
  have hne : other ≠ place := by
    rintro rfl
    rw [hfree] at hnode
    cases hnode
  rw [node?_rebind_of_ne _ _ hne]
  exact hnode

theorem keepsNodes_openOrMake {mode : Nat}
    (h : disk.openOrMake path mode = .ok (number, after)) : KeepsNodes disk after := by
  rcases openOrMake_cases h with ⟨-, rfl⟩ | ⟨folder, name, -, -, hlook, -, rfl⟩
  · exact fun place node hnode => hnode
  · exact keepsNodes_made _ (look_eq_ok_iff.mp hlook).2

theorem Sound.openOrMake (hsound : disk.Sound) {mode : Nat}
    (h : disk.openOrMake path mode = .ok (number, after)) : after.Sound := by
  rcases openOrMake_cases h with ⟨-, rfl⟩ | ⟨folder, name, -, -, -, -, rfl⟩
  · exact hsound
  · exact hsound.made _

/-- A file that was opened is what its path leads to. -/
theorem fileNumber_of_openOrMake {mode : Nat}
    (h : disk.openOrMake path mode = .ok (number, after)) : after.fileNumber path = .ok number := by
  have hkeeps := keepsNodes_openOrMake h
  rcases openOrMake_cases h with
    ⟨hnumber, rfl⟩ | ⟨folder, name, htarget, hslash, hlook, rfl, rfl⟩
  · exact hnumber
  · refine fileNumber_eq_ok_iff.mpr ⟨folder, name, target_of_keeps (fun place => hkeeps place _)
      htarget, hslash, look_eq_ok_iff.mpr ⟨(look_eq_ok_iff.mp hlook).1, ?_⟩⟩
    exact node?_rebind_self _ _ (isOutside_of_target htarget)

/-- A file that was opened with nothing in it is empty, and all other files are still where
they were. -/
theorem openEmpty_spec (hsound : disk.Sound) (h : disk.openEmpty path = .ok (number, after)) :
    after.Sound ∧ after.fileNumber path = .ok number ∧ after.contents number = [] ∧
      ∀ other old, disk.fileNumber other = .ok old → after.fileNumber other = .ok old := by
  obtain ⟨⟨number, made⟩, hmade, hcleared⟩ := bind_eq_ok_iff.mp h
  cases hcleared
  have hmadeSound := hsound.openOrMake hmade
  have hnumber := fileNumber_of_openOrMake hmade
  have hlt := hmadeSound.lt_of_fileNumber hnumber
  have hnodes : (made.resize number 0).nodes = made.nodes := nodes_resize made number 0
  refine ⟨hmadeSound.congr hnodes (size_files_resize made number 0), fileNumber_congr hnodes hnumber,
    contents_resize_zero hlt, ?_⟩
  intro other old hold
  exact fileNumber_congr hnodes ((keepsNodes_openOrMake hmade).fileNumber hold)

/-! ## Moving a file over another -/

theorem Sound.rename (hsound : disk.Sound) {source destination : Path}
    (h : disk.rename source destination = .ok after) : after.Sound := by
  obtain ⟨number, hnumber, h⟩ := bind_eq_ok_iff.mp h
  obtain ⟨target, -, h⟩ := bind_eq_ok_iff.mp h
  obtain ⟨home, -, h⟩ := bind_eq_ok_iff.mp h
  have hlt := hsound.lt_of_fileNumber hnumber
  cases target with
  | folder place => cases h
  | name folder name =>
    cases home with
    | folder place => cases h
    | name home fresh =>
      obtain ⟨node, -, h⟩ := bind_eq_ok_iff.mp h
      let cleared : Disk := { disk with nodes := disk.nodes.filter (·.1 ≠ folder.child name) }
      have hcleared : cleared.Sound :=
        fun other number hmem => hsound other number (List.mem_filter.mp hmem).1
      have hrebound : (cleared.rebind (home.child fresh) (.file number)).Sound :=
        hcleared.rebind fun other hother => by cases hother; exact hlt
      rcases node with - | - | other
      · cases h; exact hrebound
      · cases h
      · cases h; exact hrebound

/-- The disk after a file was moved from one place to another. -/
def moved (disk : Disk) (source destination : Place) (number : Nat) : Disk :=
  { disk with nodes := disk.nodes.filter (·.1 ≠ source) }.rebind destination (.file number)

theorem node?_moved_of_ne {source destination : Place} (hdestination : place ≠ destination)
    (hsource : place ≠ source) :
    (disk.moved source destination number).node? place = disk.node? place := by
  rw [moved, node?_rebind_of_ne _ _ hdestination, node?, node?, find?_filter_ne disk.nodes hsource]

/-- Nothing is left where the file was. -/
theorem node?_moved_source {source destination : Place} (h : source ≠ destination)
    (hsource : source.isOutside = false) :
    (disk.moved source destination number).node? source = none := by
  have hnone : (disk.nodes.filter (·.1 ≠ source)).find? (·.1 = source) = none := by
    rw [List.find?_eq_none]
    intro found hfound
    simpa using (List.mem_filter.mp hfound).2
  rw [moved, node?_rebind_of_ne _ _ h, node?, hsource, hnone]
  rfl

/-- Neither of the two places holds a folder, so all folders are kept. -/
theorem keepsFolders_moved {source destination : Place} {old : Nat}
    (hsource : disk.node? source = some (.file number))
    (hdestination : disk.node? destination = some (.file old)) :
    KeepsFolders disk (disk.moved source destination number) := by
  intro place hplace
  have hne : place ≠ destination := by
    rintro rfl
    rw [hdestination] at hplace
    cases hplace
  have hother : place ≠ source := by
    rintro rfl
    rw [hsource] at hplace
    cases hplace
  rw [node?_moved_of_ne hne hother, hplace]

/-- Where the two paths lead, a file can be moved over another one. -/
theorem rename_eq {source destination : Path} {old : Nat}
    (hsource : disk.fileNumber source = .ok number)
    (hdestination : disk.fileNumber destination = .ok old) :
    ∃ folder name home fresh, disk.target source = .ok (.name folder name) ∧
      disk.target destination = .ok (.name home fresh) ∧
      disk.rename source destination =
        .ok (disk.moved (folder.child name) (home.child fresh) number) ∧
      KeepsFolders disk (disk.moved (folder.child name) (home.child fresh) number) := by
  obtain ⟨folder, name, htarget, -, hlook⟩ := fileNumber_eq_ok_iff.mp hsource
  obtain ⟨home, fresh, hhome, -, hfresh⟩ := fileNumber_eq_ok_iff.mp hdestination
  refine ⟨folder, name, home, fresh, htarget, hhome, ?_,
    keepsFolders_moved (look_eq_ok_iff.mp hlook).2 (look_eq_ok_iff.mp hfresh).2⟩
  exact bind_eq_ok_iff.mpr ⟨_, hsource, bind_eq_ok_iff.mpr ⟨_, htarget,
    bind_eq_ok_iff.mpr ⟨_, hhome, bind_eq_ok_iff.mpr ⟨_, hfresh, rfl⟩⟩⟩⟩

/-- A file can be moved over another one, and then the path of the other leads to
it. -/
theorem exists_rename {source destination : Path} {old : Nat}
    (hsource : disk.fileNumber source = .ok number)
    (hdestination : disk.fileNumber destination = .ok old) :
    ∃ after, disk.rename source destination = .ok after ∧ after.files = disk.files ∧
      after.fileNumber destination = .ok number := by
  obtain ⟨home, fresh, hhome, hslash, hfresh⟩ := fileNumber_eq_ok_iff.mp hdestination
  obtain ⟨folder, name, other, same, -, hother, hrename, hkeeps⟩ := rename_eq hsource hdestination
  rw [hhome] at hother
  cases hother
  refine ⟨_, hrename, rfl, fileNumber_eq_ok_iff.mpr ⟨home, fresh,
    target_of_keeps hkeeps hhome, hslash, look_eq_ok_iff.mpr ⟨(look_eq_ok_iff.mp hfresh).1, ?_⟩⟩⟩
  exact node?_rebind_self _ _ (isOutside_of_target hhome)

/-- When a file was moved to a path with another last name, its own path leads to nothing. -/
theorem find_of_rename {source destination : Path} {old : Nat}
    (hsource : disk.fileNumber source = .ok number)
    (hdestination : disk.fileNumber destination = .ok old)
    (hlast : source.names.getLast? ≠ destination.names.getLast?)
    (h : disk.rename source destination = .ok after) : after.find source = .ok none := by
  obtain ⟨folder, name, htarget, -, hlook⟩ := fileNumber_eq_ok_iff.mp hsource
  obtain ⟨other, same, home, fresh, hother, hhome, hrename, hkeeps⟩ :=
    rename_eq hsource hdestination
  rw [htarget] at hother
  cases hother
  rw [h] at hrename
  cases hrename
  have hne : folder.child name ≠ home.child fresh := by
    intro heq
    rw [(name_of_target htarget).1, (name_of_target hhome).1] at hlast
    exact hlast (congrArg some (List.append_singleton_inj.mp heq).2)
  have hfree : (disk.moved (folder.child name) (home.child fresh) number).look folder name =
      .ok none :=
    look_eq_ok_iff.mpr ⟨(look_eq_ok_iff.mp hlook).1,
      node?_moved_source hne (isOutside_of_target htarget)⟩
  exact bind_eq_ok_iff.mpr ⟨_, target_of_keeps hkeeps htarget,
    bind_eq_ok_iff.mpr ⟨_, hfree, rfl⟩⟩

/-! ## Disks that can come about -/

/-- The disks that the operations make out of the empty one. -/
inductive Reachable : Disk → Prop
  | empty : Reachable .empty
  | makeFolder {disk after : Disk} {path : Path} :
      Reachable disk → disk.makeFolder path = .ok after → Reachable after
  | openOrMake {disk after : Disk} {path : Path} {mode number : Nat} :
      Reachable disk → disk.openOrMake path mode = .ok (number, after) → Reachable after
  | rename {disk after : Disk} {source destination : Path} :
      Reachable disk → disk.rename source destination = .ok after → Reachable after
  | update {disk : Disk} (number : Nat) (change : StoredFile → StoredFile) :
      Reachable disk → Reachable (disk.update number change)

theorem Sound.makeFolder (hsound : disk.Sound) (h : disk.makeFolder path = .ok after) :
    after.Sound := by
  obtain ⟨target, -, h⟩ := bind_eq_ok_iff.mp h
  cases target with
  | folder place => cases h
  | name folder name =>
    obtain ⟨node, -, h⟩ := bind_eq_ok_iff.mp h
    cases node with
    | none =>
      cases h
      exact hsound.rebind fun number hnumber => nomatch hnumber
    | some node => cases h

/-- On a disk that came about by the operations, every file in the tree was made. -/
theorem Reachable.sound (h : Reachable disk) : disk.Sound := by
  induction h with
  | empty => exact sound_empty
  | makeFolder _ hmade ih => exact ih.makeFolder hmade
  | openOrMake _ hopened ih => exact ih.openOrMake hopened
  | rename _ hrenamed ih => exact ih.rename hrenamed
  | update number change _ ih =>
    exact ih.congr (nodes_update _ number change) (size_files_update _ number change)

end Disk
end KeyTable
