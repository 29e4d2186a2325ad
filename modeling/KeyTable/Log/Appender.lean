import KeyTable.Disk.Basic
import KeyTable.Settings

/-!
# Appending to a log

An appender writes frames to an open log file through a buffer.  A frame reaches
the file when the buffer has no room for it, or when the file is *synced*; the
sync policy says after how many changes that happens by itself.

The handle keeps its own place in the file.  It is the offset behind what was
written last, or, in a file opened for appending, wherever the file ends.
-/

namespace KeyTable
namespace Log

/-- Number of bytes that an appender buffers. -/
def bufferSize : Nat := 8192

/-- Where a handle writes next. -/
inductive Place where
  /-- At this offset. -/
  | offset (n : Nat)
  /-- Behind the end of the file. -/
  | tail
  deriving Repr, DecidableEq

/-- Writes frames to an open log file. -/
structure Appender where
  /-- Number of the file. -/
  file : Nat
  /-- Where the handle writes next. -/
  place : Place
  /-- Bytes that have not reached the file. -/
  pending : Bytes
  /-- Number of frames since the last sync. -/
  unsynced : Nat
  /-- When to sync. -/
  policy : SyncPolicy
  deriving Repr, DecidableEq

namespace Appender

/-- An appender on an open file. -/
def onFile (file : Nat) (place : Place) (policy : SyncPolicy) : Appender :=
  ⟨file, place, [], 0, policy⟩

/-- Writes bytes to the file, past the buffer. -/
def write (appender : Appender) (disk : Disk) (bytes : Bytes) : Appender × Disk :=
  match appender.place with
  | .offset n =>
    ({ appender with place := .offset (n + bytes.length) }, disk.writeAt appender.file n bytes)
  | .tail => (appender, disk.append appender.file bytes)

/-- Passes everything in the buffer on to the file. -/
def flush (appender : Appender) (disk : Disk) : Appender × Disk :=
  let (appender, disk) := appender.write disk appender.pending
  ({ appender with pending := [] }, disk)

/-- Passes everything in the buffer on to the file, and forces it to the disk. -/
def sync (appender : Appender) (disk : Disk) : Appender × Disk :=
  let (appender, disk) := appender.flush disk
  ({ appender with unsynced := 0 }, disk)

/-- Takes bytes into the buffer.  The buffer is passed on first if the bytes do
not fit behind what it holds; bytes that would fill a whole buffer do not go
through it. -/
def buffer (appender : Appender) (disk : Disk) (bytes : Bytes) : Appender × Disk :=
  let (appender, disk) :=
    if bufferSize < appender.pending.length + bytes.length then appender.flush disk
    else (appender, disk)
  if bufferSize ≤ bytes.length then appender.write disk bytes
  else ({ appender with pending := appender.pending ++ bytes }, disk)

/-- Has the sync policy it that the file is synced now? -/
def isDue (appender : Appender) : Bool :=
  match appender.policy with
  | .everyWrite => true
  | .every count => count ≤ appender.unsynced
  | .onClose => false

/-- Appends a frame, and syncs the file if that is due. -/
def append (appender : Appender) (disk : Disk) (frame : Bytes) : Appender × Disk :=
  let (appender, disk) := appender.buffer disk frame
  let appender := { appender with unsynced := appender.unsynced + 1 }
  if appender.isDue then appender.sync disk else (appender, disk)

end Appender

end Log
end KeyTable
