import KeyTable.Bytes.LittleEndian
import KeyTable.Bytes.Lines
import KeyTable.Base64
import KeyTable.Notice
import KeyTable.MemoryTable.Walk
import KeyTable.Log.Replay
import KeyTable.Log.Appender
import KeyTable.Table.Basic
import KeyTable.Table.Number
import KeyTable.Dump.File
import KeyTable.Main
import KeyTable.Proofs.MemoryTable.Refinement
import KeyTable.Proofs.Dump.RoundTrip
import KeyTable.Proofs.FileTable.Crash
import KeyTable.Proofs.FileTable.Reopening
import KeyTable.Proofs.Dump.Feeding
import KeyTable.Proofs.Dump.Grammar
import KeyTable.Proofs.Log.Scanning
import KeyTable.Proofs.Table.Exhausted
import KeyTable.Proofs.FileTable.Recovered
import KeyTable.Proofs.Dump.SetBySet
import KeyTable.Proofs.MemoryTable.Actions
import KeyTable.Proofs.MemoryTable.Cursor
import KeyTable.Proofs.MemoryTable.WalkStability
import KeyTable.Proofs.FileTable.Compacted
import KeyTable.Proofs.Checksum
import KeyTable.Proofs.Log.Damage
import KeyTable.Proofs.Dump.Canonical
import KeyTable.Proofs.MemoryTable.InStep
import KeyTable.Proofs.Table.Kinds
import KeyTable.Proofs.Dump.TextValues
import KeyTable.Proofs.MemoryTable.ChainOrder
import KeyTable.Proofs.Dump.ReadKeys
import KeyTable.Proofs.Dump.EmptyKey
import KeyTable.Proofs.MemoryTable.WalkGrowth
import KeyTable.Proofs.FileTable.Permissions
import KeyTable.Proofs.FileTable.Openable
import KeyTable.Proofs.Table.ReadOnly
import KeyTable.Proofs.Dump.Headers
import KeyTable.Proofs.Table.Numbers
import KeyTable.Proofs.Table.OtherKeys
import KeyTable.Proofs.Table.Counters
import KeyTable.Proofs.Table.TypedValues
import KeyTable.Proofs.Table.JustOpened
import KeyTable.Proofs.Table.Visiting
import KeyTable.Proofs.MemoryTable.BucketArray
import KeyTable.Proofs.Dump.Registers
import KeyTable.Proofs.Table.Reuse
