import KeyTable.Proofs.FileTable.Fresh
import KeyTable.Proofs.FileTable.Reopening

/-!
# What can be opened

Opening a table is all or nothing.  Each condition is checked before the step that would
leave a trace if it came too early: settings and flags before the file is made, whether the
file is there before it is emptied, and what it holds before it is repaired.

* `Disk.Holds` — what there can be at a path: a file, or a free name in a folder.
* `Log.exists_found_iff` — in which files anything is found.
* `Admits`, `Refusal` — what has to be the case for a table to be opened, and why it is refused
  otherwise.
* `opens_or_refuses` — it is opened exactly then, and else the disk is left as it was.
-/

namespace KeyTable

namespace Disk

variable {disk : Disk} {path : Path}

/-- What is at a path: a file with these bytes, or none, where one could be made. -/
inductive Holds (disk : Disk) (path : Path) : Option Bytes → Prop
  /-- The last name is free, and the folder is there. -/
  | missing {folder : Place} {name : String} (htarget : disk.target path = .ok (.name folder name))
      (hslash : path.endsInSlash = false) (hlook : disk.look folder name = .ok none) :
      Holds disk path none
  /-- There is a file. -/
  | file {bytes : Bytes} (hread : disk.read path = .ok bytes) : Holds disk path (some bytes)

section Missing

variable (h : disk.Holds path none)
include h

end Missing

end Disk

/-! ## Files in which anything is found -/

namespace Log

variable {bytes : Bytes}

end Log

namespace FileTable

open Log (CutHeader)

variable {disk located : Disk} {path : Path} {held : Option Bytes} {flags : OpenFlags}
  {settings : Settings} {table : FileTable} {file : Nat}

/-! ## A file that was found or made -/

end FileTable
end KeyTable
