import KeyTable.Proofs.Disk.Tree

/-!
# Permission bits

A file gets its permission bits when it is made.  What is written into it afterwards, and
where it is moved, does not matter to them.

* `SameModes` — on the one disk there is all that is on the other, but for what the files
  hold; so every path has the bits that it had (`SameModes.mode_eq`).
* `mode_openOrMake` — a file that is opened keeps its bits, and one that is made gets those
  that were asked for, as far as they are granted.
* `mode_rename` — a file that is moved takes its bits along.
-/

namespace KeyTable

namespace StoredFile

@[simp] theorem mode_write (file : StoredFile) (offset : Nat) (bytes : Bytes) :
    (file.write offset bytes).mode = file.mode := by
  unfold write
  split <;> rfl

@[simp] theorem mode_resize (file : StoredFile) (length : Nat) :
    (file.resize length).mode = file.mode := by
  unfold resize
  split <;> rfl

end StoredFile

namespace Disk

variable {disk after : Disk} {path : Path} {number : Nat}

/-! ## The same tree -/

section Congr

variable (h : after.nodes = disk.nodes)
include h

theorem look_congr (folder : Place) (name : String) :
    after.look folder name = disk.look folder name := by
  rw [look, look, node?_congr h]

theorem walk_congr (folder : Place) (names : List String) :
    after.walk folder names = disk.walk folder names := by
  induction names generalizing folder with
  | nil => rfl
  | cons name names ih =>
    unfold walk
    simp only [ih, look_congr h]

theorem target_congr (path : Path) : after.target path = disk.target path := by
  unfold target
  simp only [walk_congr h]

/-- What a path leads to depends on the tree alone. -/
theorem find_congr (path : Path) : after.find path = disk.find path := by
  unfold find
  simp only [target_congr h, look_congr h]

end Congr

/-! ## The same permission bits -/

/-- The permission bits of all files, by their numbers. -/
def modes (disk : Disk) : Array Nat := disk.files.map StoredFile.mode

/-- Do two disks differ only in what the files hold? -/
structure SameModes (disk after : Disk) : Prop where
  /-- The tree is the same. -/
  nodes : after.nodes = disk.nodes
  /-- There are the same files, with the same permission bits. -/
  modes : after.modes = disk.modes

theorem SameModes.refl (disk : Disk) : SameModes disk disk := ⟨rfl, rfl⟩

theorem SameModes.trans {last : Disk} (h : SameModes disk after) (hlast : SameModes after last) :
    SameModes disk last :=
  ⟨hlast.nodes.trans h.nodes, hlast.modes.trans h.modes⟩

/-- To change what a file holds leaves its permission bits. -/
theorem sameModes_update {change : StoredFile → StoredFile}
    (hchange : ∀ file, (change file).mode = file.mode) (disk : Disk) (number : Nat) :
    SameModes disk (disk.update number change) := by
  refine ⟨rfl, ?_⟩
  refine Array.ext_getElem? fun other => ?_
  rw [Disk.modes, Disk.modes, update, Array.getElem?_map, Array.getElem?_map,
    Array.getElem?_modify]
  split
  · rw [Option.map_map]
    exact congrArg (Option.map · disk.files[other]?) (funext hchange)
  · rfl

theorem sameModes_append (disk : Disk) (number : Nat) (bytes : Bytes) :
    SameModes disk (disk.append number bytes) :=
  sameModes_update (fun file => file.mode_write file.size bytes) disk number

theorem sameModes_resize (disk : Disk) (number length : Nat) :
    SameModes disk (disk.resize number length) :=
  sameModes_update (fun file => file.mode_resize length) disk number

theorem sameModes_writeAt (disk : Disk) (number offset : Nat) (bytes : Bytes) :
    SameModes disk (disk.writeAt number offset bytes) := by
  unfold writeAt
  split
  · exact SameModes.refl disk
  · exact sameModes_update (fun file => file.mode_write offset bytes) disk number

/-! ## The permission bits at a path -/

/-- What a path leads to has the permission bits that its file has. -/
theorem mode_eq (disk : Disk) (path : Path) :
    disk.mode path = (disk.find path).bind fun
      | none => .error .missing
      | some .folder => .ok folderMode
      | some (.file number) => .ok (disk.modes[number]?.getD 0) := by
  unfold mode modes
  simp only [Array.getElem?_map]
  rfl

theorem SameModes.mode_eq (h : SameModes disk after) (path : Path) :
    after.mode path = disk.mode path := by
  rw [Disk.mode_eq, Disk.mode_eq, find_congr h.nodes, h.modes]

theorem find_of_fileNumber (h : disk.fileNumber path = .ok number) :
    disk.find path = .ok (some (.file number)) := by
  obtain ⟨node, hfind, hnode⟩ := bind_eq_ok_iff.mp h
  rcases node with - | - | other
  · cases hnode
  · cases hnode
  · cases hnode
    exact hfind

theorem mode_of_fileNumber (h : disk.fileNumber path = .ok number) :
    disk.mode path = .ok (disk.modes[number]?.getD 0) := by
  rw [mode_eq, find_of_fileNumber h]
  rfl

/-- A file that is opened keeps its permission bits.  One that is made gets those that were
asked for, as far as they are granted. -/
theorem mode_openOrMake {mode : Nat} (h : disk.openOrMake path mode = .ok (number, after)) :
    (disk.fileNumber path = .ok number ∧ after = disk) ∨
      (disk.find path = .ok none ∧ after.mode path = .ok (grantedMode mode)) := by
  have hnumber := fileNumber_of_openOrMake h
  rcases openOrMake_cases h with hfound | ⟨folder, name, htarget, -, hlook, rfl, rfl⟩
  · exact .inl hfound
  · refine .inr ⟨bind_eq_ok_iff.mpr ⟨_, htarget, bind_eq_ok_iff.mpr ⟨_, hlook, rfl⟩⟩, ?_⟩
    rw [mode_of_fileNumber hnumber, modes, rebind, Array.getElem?_map, Array.getElem?_push_size]
    rfl

/-- A file that is moved over another one takes its permission bits along. -/
theorem mode_rename {source destination : Path} {old : Nat}
    (hsource : disk.fileNumber source = .ok number)
    (hdestination : disk.fileNumber destination = .ok old)
    (h : disk.rename source destination = .ok after) :
    after.mode destination = disk.mode source := by
  obtain ⟨renamed, hrename, hfiles, hleads⟩ := exists_rename hsource hdestination
  rw [h] at hrename
  cases hrename
  rw [mode_of_fileNumber hleads, mode_of_fileNumber hsource, modes, modes, hfiles]

end Disk
end KeyTable
