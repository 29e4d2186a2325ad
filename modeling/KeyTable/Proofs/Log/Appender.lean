import KeyTable.Log.Appender
import KeyTable.Proofs.Disk.Files

/-!
# What an appender has logged

The bytes that an appender has logged are those in its file and, behind them, those
still in its buffer (`logged`).  Whatever the appender does, it adds to them what
it was given and nothing else, and it never takes back a byte of the file
(`Advances`).  The handle must write where the file ends for that (`Fits`), and
goes on doing so.  No other file is changed (`Confined`).

The sync policy bounds how much is in the buffer (`Prompt`).
-/

namespace KeyTable
namespace Log
namespace Appender

variable {appender : Appender} {disk : Disk}

/-- The bytes in the file, and behind them those still in the buffer. -/
def logged (appender : Appender) (disk : Disk) : Bytes :=
  disk.contents appender.file ++ appender.pending

/-- Does the handle write where its file ends? -/
structure Fits (appender : Appender) (disk : Disk) : Prop where
  /-- The file is there. -/
  made : appender.file < disk.files.size
  /-- The place is behind the last byte of the file. -/
  placed : appender.place = .tail ∨ appender.place = .offset (disk.contents appender.file).length

/-- How an appender and the disk come on when bytes are logged. -/
structure Advances (before : Appender × Disk) (bytes : Bytes) (after : Appender × Disk) : Prop where
  /-- It is the same file. -/
  file : after.1.file = before.1.file
  /-- The sync policy is the same. -/
  policy : after.1.policy = before.1.policy
  /-- The tree of the disk is the same. -/
  nodes : after.2.nodes = before.2.nodes
  /-- No file was made. -/
  size : after.2.files.size = before.2.files.size
  /-- The handle still writes where the file ends. -/
  fits : after.1.Fits after.2
  /-- The bytes were added to those that had been logged. -/
  logged : after.1.logged after.2 = before.1.logged before.2 ++ bytes
  /-- What was in the file still is. -/
  kept : before.2.contents before.1.file <+: after.2.contents after.1.file

theorem Advances.refl (h : appender.Fits disk) : Advances (appender, disk) [] (appender, disk) :=
  ⟨rfl, rfl, rfl, rfl, h, (List.append_nil _).symm, List.prefix_refl _⟩

theorem Advances.trans {first second third : Appender × Disk} {bytes more : Bytes}
    (h : Advances first bytes second) (hmore : Advances second more third) :
    Advances first (bytes ++ more) third where
  file := hmore.file.trans h.file
  policy := hmore.policy.trans h.policy
  nodes := hmore.nodes.trans h.nodes
  size := hmore.size.trans h.size
  fits := hmore.fits
  logged := by rw [hmore.logged, h.logged, List.append_assoc]
  kept := h.kept.trans hmore.kept

/-! ## Writing -/

@[simp] theorem file_write (appender : Appender) (disk : Disk) (bytes : Bytes) :
    (appender.write disk bytes).1.file = appender.file := by
  unfold write
  split <;> rfl

@[simp] theorem policy_write (appender : Appender) (disk : Disk) (bytes : Bytes) :
    (appender.write disk bytes).1.policy = appender.policy := by
  unfold write
  split <;> rfl

@[simp] theorem pending_write (appender : Appender) (disk : Disk) (bytes : Bytes) :
    (appender.write disk bytes).1.pending = appender.pending := by
  unfold write
  split <;> rfl

@[simp] theorem unsynced_write (appender : Appender) (disk : Disk) (bytes : Bytes) :
    (appender.write disk bytes).1.unsynced = appender.unsynced := by
  unfold write
  split <;> rfl

@[simp] theorem nodes_write (appender : Appender) (disk : Disk) (bytes : Bytes) :
    (appender.write disk bytes).2.nodes = disk.nodes := by
  unfold write
  split
  · exact Disk.nodes_writeAt ..
  · exact Disk.nodes_append ..

@[simp] theorem size_files_write (appender : Appender) (disk : Disk) (bytes : Bytes) :
    (appender.write disk bytes).2.files.size = disk.files.size := by
  unfold write
  split
  · exact Disk.size_files_writeAt ..
  · exact Disk.size_files_append ..

theorem contents_write (h : appender.Fits disk) (bytes : Bytes) :
    (appender.write disk bytes).2.contents appender.file =
      disk.contents appender.file ++ bytes := by
  unfold write
  rcases h.placed with hplace | hplace
  · rw [hplace]
    exact Disk.contents_append h.made bytes
  · rw [hplace]
    exact Disk.contents_writeAt_length h.made bytes

theorem Fits.write (h : appender.Fits disk) (bytes : Bytes) :
    (appender.write disk bytes).1.Fits (appender.write disk bytes).2 where
  made := by
    rw [file_write, size_files_write]
    exact h.made
  placed := by
    rw [file_write, contents_write h]
    unfold Appender.write
    rcases h.placed with hplace | hplace
    · rw [hplace]
      exact .inl hplace
    · rw [hplace, List.length_append]
      exact .inr rfl

/-- The place and the file of an appender decide whether it fits. -/
theorem Fits.congr {other : Appender} (h : appender.Fits disk) (hfile : other.file = appender.file)
    (hplace : other.place = appender.place) : other.Fits disk where
  made := by
    rw [hfile]
    exact h.made
  placed := by
    rw [hfile, hplace]
    exact h.placed

/-- With nothing in the buffer, what is written past it is logged. -/
theorem advances_write (h : appender.Fits disk) (hpending : appender.pending = [])
    (bytes : Bytes) : Advances (appender, disk) bytes (appender.write disk bytes) where
  file := file_write appender disk bytes
  policy := policy_write appender disk bytes
  nodes := nodes_write appender disk bytes
  size := size_files_write appender disk bytes
  fits := h.write bytes
  logged := by
    simp only [Appender.logged, file_write, pending_write, hpending, List.append_nil]
    exact contents_write h bytes
  kept := by
    rw [file_write, contents_write h]
    exact List.prefix_append _ bytes

/-! ## Flushing and syncing -/

@[simp] theorem pending_flush (appender : Appender) (disk : Disk) :
    (appender.flush disk).1.pending = [] := rfl

@[simp] theorem unsynced_flush (appender : Appender) (disk : Disk) :
    (appender.flush disk).1.unsynced = appender.unsynced :=
  unsynced_write appender disk appender.pending

theorem advances_flush (h : appender.Fits disk) :
    Advances (appender, disk) [] (appender.flush disk) where
  file := file_write appender disk appender.pending
  policy := policy_write appender disk appender.pending
  nodes := nodes_write appender disk appender.pending
  size := size_files_write appender disk appender.pending
  fits := (h.write appender.pending).congr rfl rfl
  logged := by
    simp only [Appender.logged, pending_flush, List.append_nil]
    simp only [flush, file_write]
    exact contents_write h appender.pending
  kept := by
    simp only [flush, file_write]
    rw [contents_write h]
    exact List.prefix_append _ appender.pending

@[simp] theorem pending_sync (appender : Appender) (disk : Disk) :
    (appender.sync disk).1.pending = [] := rfl

theorem advances_sync (h : appender.Fits disk) :
    Advances (appender, disk) [] (appender.sync disk) :=
  let hflush := advances_flush h
  ⟨hflush.file, hflush.policy, hflush.nodes, hflush.size, hflush.fits.congr rfl rfl,
    hflush.logged, hflush.kept⟩

/-- An appender that has been given nothing writes nothing. -/
theorem flush_onFile (file offset : Nat) (policy : SyncPolicy) (disk : Disk) :
    (onFile file (.offset offset) policy).flush disk =
      (onFile file (.offset offset) policy, disk) := by
  have hwrite : disk.writeAt file offset [] = disk := if_pos rfl
  unfold flush onFile write
  dsimp only
  rw [hwrite]
  rfl

theorem sync_onFile (file offset : Nat) (policy : SyncPolicy) (disk : Disk) :
    (onFile file (.offset offset) policy).sync disk =
      (onFile file (.offset offset) policy, disk) := by
  rw [sync, flush_onFile]
  rfl

/-! ## Appending -/

theorem advances_take (h : appender.Fits disk) (bytes : Bytes) :
    Advances (appender, disk) bytes
      ({ appender with pending := appender.pending ++ bytes }, disk) :=
  ⟨rfl, rfl, rfl, rfl, h.congr rfl rfl, (List.append_assoc _ _ _).symm, List.prefix_refl _⟩

/-- The appender that bytes are buffered by, after the flush that makes room for them. -/
def withRoom (appender : Appender) (disk : Disk) (bytes : Bytes) : Appender × Disk :=
  if bufferSize < appender.pending.length + bytes.length then appender.flush disk
  else (appender, disk)

theorem buffer_eq (appender : Appender) (disk : Disk) (bytes : Bytes) :
    appender.buffer disk bytes =
      let ready := appender.withRoom disk bytes
      if bufferSize ≤ bytes.length then ready.1.write ready.2 bytes
      else ({ ready.1 with pending := ready.1.pending ++ bytes }, ready.2) := rfl

theorem advances_withRoom (h : appender.Fits disk) (bytes : Bytes) :
    Advances (appender, disk) [] (appender.withRoom disk bytes) := by
  unfold withRoom
  split
  · exact advances_flush h
  · exact Advances.refl h

/-- For a whole bufferful the buffer has been flushed. -/
theorem pending_withRoom {bytes : Bytes} (h : bufferSize ≤ bytes.length) (appender : Appender)
    (disk : Disk) : (appender.withRoom disk bytes).1.pending = [] := by
  unfold withRoom
  split
  · rfl
  · next hroom =>
    have hempty : appender.pending.length = 0 := by omega
    exact List.eq_nil_of_length_eq_zero hempty

@[simp] theorem unsynced_buffer (appender : Appender) (disk : Disk) (bytes : Bytes) :
    (appender.buffer disk bytes).1.unsynced = appender.unsynced := by
  have hready : (appender.withRoom disk bytes).1.unsynced = appender.unsynced := by
    unfold withRoom
    split
    · exact unsynced_flush appender disk
    · rfl
  rw [buffer_eq]
  dsimp only
  split
  · rw [unsynced_write, hready]
  · exact hready

theorem advances_buffer (h : appender.Fits disk) (bytes : Bytes) :
    Advances (appender, disk) bytes (appender.buffer disk bytes) := by
  have hready := advances_withRoom h bytes
  rw [buffer_eq]
  dsimp only
  split
  · next hlarge =>
    exact hready.trans (advances_write hready.fits (pending_withRoom hlarge appender disk) bytes)
  · exact hready.trans (advances_take hready.fits bytes)

theorem advances_append (h : appender.Fits disk) (frame : Bytes) :
    Advances (appender, disk) frame (appender.append disk frame) := by
  have hbuffer := advances_buffer h frame
  have hcounted : Advances (appender, disk) frame
      ({ (appender.buffer disk frame).1 with
          unsynced := (appender.buffer disk frame).1.unsynced + 1 },
        (appender.buffer disk frame).2) :=
    ⟨hbuffer.file, hbuffer.policy, hbuffer.nodes, hbuffer.size, hbuffer.fits.congr rfl rfl,
      hbuffer.logged, hbuffer.kept⟩
  unfold append
  dsimp only
  split
  · have hsync := hcounted.trans (advances_sync hcounted.fits)
    rw [List.append_nil] at hsync
    exact hsync
  · exact hcounted

/-! ## Other files -/

/-- Has an appender kept its file, and left all other files as they were? -/
structure Confined (before after : Appender × Disk) : Prop where
  /-- It is the same file. -/
  file : after.1.file = before.1.file
  /-- What is in other files is the same. -/
  others : ∀ number, number ≠ before.1.file →
    after.2.contents number = before.2.contents number

theorem Confined.refl (state : Appender × Disk) : Confined state state := ⟨rfl, fun _ _ => rfl⟩

theorem Confined.trans {first second third : Appender × Disk} (h : Confined first second)
    (hmore : Confined second third) : Confined first third where
  file := hmore.file.trans h.file
  others := fun number hnumber =>
    (hmore.others number (by rw [h.file]; exact hnumber)).trans (h.others number hnumber)

theorem confined_write (appender : Appender) (disk : Disk) (bytes : Bytes) :
    Confined (appender, disk) (appender.write disk bytes) where
  file := file_write appender disk bytes
  others := by
    intro number hnumber
    unfold write
    split
    · exact Disk.contents_writeAt_of_ne hnumber _ _
    · exact Disk.contents_append_of_ne hnumber _

theorem confined_flush (appender : Appender) (disk : Disk) :
    Confined (appender, disk) (appender.flush disk) :=
  let hwrite := confined_write appender disk appender.pending
  ⟨hwrite.file, hwrite.others⟩

theorem confined_buffer (appender : Appender) (disk : Disk) (bytes : Bytes) :
    Confined (appender, disk) (appender.buffer disk bytes) := by
  have hready : Confined (appender, disk) (appender.withRoom disk bytes) := by
    unfold withRoom
    split
    · exact confined_flush appender disk
    · exact Confined.refl _
  rw [buffer_eq]
  dsimp only
  split
  · exact hready.trans (confined_write _ _ bytes)
  · exact ⟨hready.file, hready.others⟩

/-- To append a frame changes no file but the log. -/
theorem confined_append (appender : Appender) (disk : Disk) (frame : Bytes) :
    Confined (appender, disk) (appender.append disk frame) := by
  have hbuffer := confined_buffer appender disk frame
  have hcounted : Confined (appender, disk)
      ({ (appender.buffer disk frame).1 with
          unsynced := (appender.buffer disk frame).1.unsynced + 1 },
        (appender.buffer disk frame).2) := ⟨hbuffer.file, hbuffer.others⟩
  unfold append
  dsimp only
  split
  · have hflush := hcounted.trans (confined_flush _ _)
    exact ⟨hflush.file, hflush.others⟩
  · exact hcounted

/-! ## Promptness -/

/-- Does the appender do what the sync policy asks for? -/
def Prompt (appender : Appender) : Prop :=
  match appender.policy with
  | .everyWrite => appender.pending = []
  | .every count => appender.unsynced < count
  | .onClose => True

theorem prompt_of_settled (hpending : appender.pending = []) (hunsynced : appender.unsynced = 0)
    (hpolicy : appender.policy ≠ .every 0) : appender.Prompt := by
  unfold Prompt
  split
  · exact hpending
  · next count hcount =>
    rw [hunsynced]
    refine Nat.pos_of_ne_zero ?_
    rintro rfl
    exact hpolicy hcount
  · trivial

/-- After an append the file is synced, or that is not due and there is one more frame
since the last sync. -/
theorem append_cases (appender : Appender) (disk : Disk) (frame : Bytes) :
    ((appender.append disk frame).1.pending = [] ∧ (appender.append disk frame).1.unsynced = 0) ∨
      ((appender.append disk frame).1.isDue = false ∧
        (appender.append disk frame).1.unsynced = appender.unsynced + 1) := by
  unfold append
  dsimp only
  split
  · exact .inl ⟨rfl, rfl⟩
  · next hdue =>
    refine .inr ⟨by simpa using hdue, ?_⟩
    exact congrArg (· + 1) (unsynced_buffer appender disk frame)

theorem prompt_of_isDue_eq_false (h : appender.isDue = false) : appender.Prompt := by
  unfold isDue at h
  unfold Prompt
  split
  · next hevery => simp [hevery] at h
  · next count hcount => simpa [hcount] using h
  · trivial

theorem prompt_append (h : appender.Fits disk) (hpolicy : appender.policy ≠ .every 0)
    (frame : Bytes) : (appender.append disk frame).1.Prompt := by
  have hsame : (appender.append disk frame).1.policy = appender.policy :=
    (advances_append h frame).policy
  rcases append_cases appender disk frame with ⟨hpending, hunsynced⟩ | ⟨hdue, -⟩
  · exact prompt_of_settled hpending hunsynced (hsame ▸ hpolicy)
  · exact prompt_of_isDue_eq_false hdue

theorem prompt_sync (h : appender.Fits disk) (hpolicy : appender.policy ≠ .every 0) :
    (appender.sync disk).1.Prompt := by
  have hsame : (appender.sync disk).1.policy = appender.policy := (advances_sync h).policy
  exact prompt_of_settled rfl rfl (hsame ▸ hpolicy)

end Appender
end Log
end KeyTable
