import KeyTable.Disk.Basic

/-!
# Files by number

What the operations through an open handle do to the bytes of the file, and that
they leave the tree of the disk, the number of its files and the bytes of all other
files as they are.
-/

namespace KeyTable
namespace Disk

variable {disk : Disk} {number : Nat}

/-! ## What writing leaves alone -/

@[simp] theorem nodes_update (disk : Disk) (number : Nat) (change : StoredFile → StoredFile) :
    (disk.update number change).nodes = disk.nodes := rfl

@[simp] theorem size_files_update (disk : Disk) (number : Nat) (change : StoredFile → StoredFile) :
    (disk.update number change).files.size = disk.files.size := Array.size_modify

@[simp] theorem nodes_writeAt (disk : Disk) (number offset : Nat) (bytes : Bytes) :
    (disk.writeAt number offset bytes).nodes = disk.nodes := by
  unfold writeAt
  split <;> rfl

@[simp] theorem size_files_writeAt (disk : Disk) (number offset : Nat) (bytes : Bytes) :
    (disk.writeAt number offset bytes).files.size = disk.files.size := by
  unfold writeAt
  split
  · rfl
  · exact size_files_update disk number _

@[simp] theorem nodes_append (disk : Disk) (number : Nat) (bytes : Bytes) :
    (disk.append number bytes).nodes = disk.nodes := rfl

@[simp] theorem size_files_append (disk : Disk) (number : Nat) (bytes : Bytes) :
    (disk.append number bytes).files.size = disk.files.size := size_files_update disk number _

@[simp] theorem nodes_resize (disk : Disk) (number length : Nat) :
    (disk.resize number length).nodes = disk.nodes := rfl

@[simp] theorem size_files_resize (disk : Disk) (number length : Nat) :
    (disk.resize number length).files.size = disk.files.size := size_files_update disk number _

/-! ## What it leaves of other files -/

section Others

variable {other : Nat} (h : other ≠ number)
include h

theorem contents_update_of_ne (change : StoredFile → StoredFile) :
    (disk.update number change).contents other = disk.contents other := by
  rw [contents, contents, update, Array.getElem?_modify, if_neg (Ne.symm h)]

theorem contents_writeAt_of_ne (offset : Nat) (bytes : Bytes) :
    (disk.writeAt number offset bytes).contents other = disk.contents other := by
  unfold writeAt
  split
  · rfl
  · exact contents_update_of_ne h _

theorem contents_append_of_ne (bytes : Bytes) :
    (disk.append number bytes).contents other = disk.contents other :=
  contents_update_of_ne h _

end Others

/-! ## What it does to the bytes -/

theorem contents_eq (h : number < disk.files.size) :
    disk.contents number = disk.files[number].bytes := by
  rw [contents, Array.getElem?_eq_getElem h]
  rfl

theorem contents_update (h : number < disk.files.size) (change : StoredFile → StoredFile) :
    (disk.update number change).contents number = (change disk.files[number]).bytes := by
  have hsize : number < (disk.update number change).files.size := by
    rw [size_files_update]
    exact h
  rw [contents_eq hsize]
  simp only [update, Array.getElem_modify_self]

theorem contents_writeAt (h : number < disk.files.size) (offset : Nat) {bytes : Bytes}
    (hbytes : bytes ≠ []) :
    (disk.writeAt number offset bytes).contents number =
      (disk.contents number).overwrite offset bytes := by
  rw [writeAt, if_neg hbytes, contents_update h, StoredFile.bytes_write, contents_eq h]

/-- To write where the file ends is to append. -/
theorem contents_writeAt_length (h : number < disk.files.size) (bytes : Bytes) :
    (disk.writeAt number (disk.contents number).length bytes).contents number =
      disk.contents number ++ bytes := by
  by_cases hbytes : bytes = []
  · rw [writeAt, if_pos hbytes, hbytes, List.append_nil]
  · rw [contents_writeAt h _ hbytes, Bytes.overwrite_length]

theorem contents_append (h : number < disk.files.size) (bytes : Bytes) :
    (disk.append number bytes).contents number = disk.contents number ++ bytes := by
  rw [append, contents_update h, StoredFile.bytes_write, contents_eq h, ← StoredFile.length_bytes,
    Bytes.overwrite_length]

theorem contents_resize (h : number < disk.files.size) (length : Nat) :
    (disk.resize number length).contents number = (disk.contents number).resize length := by
  rw [resize, contents_update h, StoredFile.bytes_resize, contents_eq h]

/-- To cut a file to nothing is to empty it. -/
theorem contents_resize_zero (h : number < disk.files.size) :
    (disk.resize number 0).contents number = [] := by
  rw [contents_resize h, Bytes.resize_of_le (Nat.zero_le _), List.take_zero]

end Disk
end KeyTable
