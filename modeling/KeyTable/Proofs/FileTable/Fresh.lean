import KeyTable.Proofs.FileTable.Recovery

/-!
# New file tables

A file table that has no record yet has no file, or a file that was new: it was missing
or empty, or it was emptied when the table was opened.  Either way the table has the buckets
of a new table in memory.

* `Fresh` — the file tables that are new and can be changed.
* `contents_cleared_located` — a file that is new is empty when its log is replayed.
* `Fresh.spec` — so nothing is recovered from it.
-/

namespace KeyTable
namespace FileTable

variable {disk located : Disk} {path : Path} {flags : OpenFlags} {settings : Settings}
  {table : FileTable} {file : Nat}

/-- A file table that can be changed, and has no record yet: one that has no file, or one on a
file that was missing, empty, or emptied by opening it. -/
inductive Fresh (settings : Settings) : FileTable → Prop
  | anonymous : Fresh settings (.anonymous settings)
  | opened {disk : Disk} {path : Path} {flags : OpenFlags} {table : FileTable}
      (hwritable : flags.readOnly = false)
      (hnew : flags.truncate = true ∨
        ∀ file, disk.fileNumber path = .ok file → disk.contents file = [])
      (h : (openAt disk path flags settings).answer = .ok table) : Fresh settings table

/-- A file that was missing is made without contents. -/
theorem contents_located
    (hnew : ∀ file, disk.fileNumber path = .ok file → disk.contents file = [])
    (h : locateFile disk path flags = .ok (file, located)) : located.contents file = [] := by
  unfold locateFile at h
  split at h
  · rcases Disk.openOrMake_cases h with ⟨hfound, rfl⟩ | ⟨folder, name, -, -, -, rfl, rfl⟩
    · exact hnew file hfound
    · simp [Disk.contents, Disk.rebind, StoredFile.bytes, StoredFile.empty]
  · cases hnumber : disk.fileNumber path with
    | error error =>
      rw [hnumber] at h
      cases h
    | ok number =>
      rw [hnumber] at h
      cases h
      exact hnew file hnumber

/-- The file on which a fresh table is opened is empty. -/
theorem contents_cleared_located
    (hnew : flags.truncate = true ∨
      ∀ file, disk.fileNumber path = .ok file → disk.contents file = [])
    (h : locateFile disk path flags = .ok (file, located)) :
    (cleared located file flags).contents file = [] := by
  by_cases hfile : file < located.files.size
  · rw [contents_cleared hfile]
    split
    · rfl
    · next htruncate => exact contents_located (hnew.resolve_left htruncate) h
  · -- a path may lead nowhere on a disk that no operations have led to
    have hsize : (cleared located file flags).files.size ≤ file := by
      rw [size_files_cleared]
      exact Nat.le_of_not_lt hfile
    rw [Disk.contents, Array.getElem?_eq_none hsize]
    rfl

/-- From an empty file nothing is recovered. -/
theorem memory_of_ofFile (hwritable : flags.readOnly = false) (hempty : disk.contents file = [])
    (h : (ofFile disk file path flags settings).answer = .ok table) :
    table.memory = .ofSettings settings ∧ table.readOnly = false := by
  have hrecover : recover settings (disk.contents file) = .ok (.ofSettings settings, {}) := by
    rw [hempty]
    rfl
  unfold ofFile at h
  dsimp only at h
  rw [hrecover] at h
  simp only [hwritable, Bool.false_eq_true, if_false] at h
  cases h
  exact ⟨rfl, rfl⟩

/-- A fresh table has the buckets of a new table in memory. -/
theorem Fresh.spec (h : Fresh settings table) :
    table.memory = .ofSettings settings ∧ table.readOnly = false := by
  cases h with
  | anonymous => exact ⟨rfl, rfl⟩
  | opened hwritable hnew h =>
    obtain ⟨-, -, file, located, hlocate, hopen⟩ := exists_located_of_openAt h
    rw [hopen] at h
    exact memory_of_ofFile hwritable (contents_cleared_located hnew hlocate) h

end FileTable
end KeyTable
