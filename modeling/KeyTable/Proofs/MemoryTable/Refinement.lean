import KeyTable.Proofs.MemoryTable.Walking

/-!
# Tables in memory as finite maps

A caller of a table sees only what its calls are answered.  This file says that
the answers are those of a finite map, for any number of calls in any order.

* `Contents.after`, `Contents.Allows` — what a call does to a map, and which
  answers to it are right.  All but the steps of a walk have exactly one.
* `perform_spec` — one call on a sound table is right and leaves it sound.
* `run_conforms` — so is every call of a run from a new table, whatever splits,
  overwritten buffers and replaced records there are on the way.
-/

namespace KeyTable
namespace MemoryTable

/-! ## Calls -/

/-- What a caller can ask of a table. -/
inductive Call where
  /-- Add a key that is absent. -/
  | insert (key : Bytes) (content : Content)
  /-- Add a key or give it another value. -/
  | store (key : Bytes) (content : Content)
  /-- Remove a key. -/
  | delete (key : Bytes)
  /-- Fetch the value of a key. -/
  | fetch (key : Bytes)
  /-- Fetch the value of a key, and change it in place. -/
  | edit (key : Bytes) (change : Bytes → Bytes)
  /-- Add a key that is absent with so many zero bytes. -/
  | reserve (key : Bytes) (length : Nat)
  /-- Look a key up and leave the cursor. -/
  | get (key : Bytes)
  /-- Ask whether a key is present. -/
  | contains (key : Bytes)
  /-- Start the walk. -/
  | first
  /-- Carry the walk on. -/
  | next
  /-- Ask for the number of records. -/
  | count

/-- What a table answers to a call. -/
inductive Reply where
  /-- A value, or why there is none. -/
  | value (answer : Except Fault Bytes)
  /-- That it is done, or why it is not. -/
  | done (answer : Except Fault Unit)
  /-- The value of a key, if it is present. -/
  | lookup (value : Option Bytes)
  /-- Whether a key is present. -/
  | holds (present : Bool)
  /-- A step of a walk. -/
  | step (entry : Option Entry)
  /-- A number of records. -/
  | count (number : Nat)

/-- Fetches the value of a key, and changes it in place: as many bytes of the
changed value as the value has are written over it. -/
def edit (table : MemoryTable) (key : Bytes) (change : Bytes → Bytes) :
    Except Fault Bytes × MemoryTable :=
  match table.fetch key with
  | (.ok value, fetched) => (.ok value, (fetched.patch key (change value)).2)
  | (.error fault, fetched) => (.error fault, fetched)

/-- Performs a call. -/
def perform (table : MemoryTable) : Call → Reply × MemoryTable
  | .insert key content => (table.insert key content).map .value id
  | .store key content => (table.store key content).map .value id
  | .delete key => (table.delete key).map .done id
  | .fetch key => (table.fetch key).map .value id
  | .edit key change => (table.edit key change).map .value id
  | .reserve key length => (table.reserve key length).map .value id
  | .get key => (.lookup (table.get? key), table)
  | .contains key => (.holds (table.contains key), table)
  | .first => table.first.map .step id
  | .next => table.next.map .step id
  | .count => (.count table.count, table)

/-- Performs calls one after the other. -/
def run (table : MemoryTable) : List Call → List Reply × MemoryTable
  | [] => ([], table)
  | call :: calls =>
    let (reply, table) := table.perform call
    let (replies, table) := table.run calls
    (reply :: replies, table)

end MemoryTable

/-! ## What a finite map does -/

namespace Contents

open MemoryTable (Call Reply found)

/-- What a call makes of a map. -/
def after (contents : Contents) : Call → Contents
  | .insert key content =>
    if key ∈ contents then contents else contents.insert key content.toBytes
  | .reserve key length =>
    if key ∈ contents then contents else contents.insert key (Bytes.zeros length)
  | .store key content => contents.insert key content.toBytes
  | .delete key => contents.erase key
  | .edit key change =>
    match contents.lookup key with
    | some value => contents.insert key (Record.patched value (change value))
    | none => contents
  | .fetch _ | .get _ | .contains _ | .first | .next | .count => contents

/-- The answer to the wish to add a key. -/
def added (contents : Contents) (key value : Bytes) : Except Fault Bytes :=
  if key ∈ contents then .error .alreadyExists else .ok value

/-- Is this a binding of a map? -/
def Binds (contents : Contents) (entry : Entry) : Prop :=
  contents.lookup entry.key = some entry.value

/-- Is this a right answer to a call?  A walk has only to answer with what the map
holds, and to start if it holds anything. -/
def Allows (contents : Contents) : Call → Reply → Prop
  | .insert key content, reply => reply = .value (contents.added key content.toBytes)
  | .reserve key length, reply => reply = .value (contents.added key (Bytes.zeros length))
  | .store _ content, reply => reply = .value (.ok content.toBytes)
  | .delete key, reply => reply = .done (if key ∈ contents then .ok () else .error .notFound)
  | .fetch key, reply | .edit key _, reply => reply = .value (found (contents.lookup key))
  | .get key, reply => reply = .lookup (contents.lookup key)
  | .contains key, reply => reply = .holds (decide (key ∈ contents))
  | .first, reply =>
    ∃ entry, reply = .step entry ∧ (entry = none ↔ contents = ∅) ∧ ∀ e ∈ entry, contents.Binds e
  | .next, reply => ∃ entry, reply = .step entry ∧ ∀ e ∈ entry, contents.Binds e
  | .count, reply => reply = .count contents.size

/-- Are these right answers to calls that are made one after the other? -/
def Conforms : Contents → List Call → List Reply → Prop
  | _, [], [] => True
  | contents, call :: calls, reply :: replies =>
    contents.Allows call reply ∧ Conforms (contents.after call) calls replies
  | _, _, _ => False

end Contents

namespace MemoryTable

variable {table : MemoryTable}

/-! ## One call -/

theorem Sound.insert_conforms (h : table.Sound) (key : Bytes) (content : Content) :
    (table.insert key content).1 = table.contents.added key content.toBytes ∧
      (table.insert key content).2.contents =
        if key ∈ table.contents then table.contents
        else table.contents.insert key content.toBytes := by
  unfold Contents.added
  by_cases hmem : key ∈ table.contents
  · rw [if_pos hmem, if_pos hmem]
    exact h.insert_of_mem hmem content
  · rw [if_neg hmem, if_neg hmem]
    exact h.insert_of_notMem hmem content

theorem Sound.delete_conforms (h : table.Sound) (key : Bytes) :
    (table.delete key).1 = (if key ∈ table.contents then .ok () else .error .notFound) ∧
      (table.delete key).2.contents = table.contents.erase key := by
  by_cases hmem : key ∈ table.contents
  · rw [if_pos hmem]
    exact h.delete_of_mem hmem
  · rw [if_neg hmem, h.delete_of_notMem hmem, Contents.erase_of_notMem hmem]
    exact ⟨rfl, rfl⟩

theorem Sound.edit_spec (h : table.Sound) (key : Bytes) (change : Bytes → Bytes) :
    (table.edit key change).2.Sound ∧
      (table.edit key change).1 = found (table.contents.lookup key) ∧
      (table.edit key change).2.contents = table.contents.after (.edit key change) := by
  obtain ⟨hanswer, hcontents⟩ := h.fetch_spec key
  have hfetched := h.fetch key
  unfold edit
  cases hlookup : table.contents.lookup key with
  | none =>
    have hafter : table.contents.after (.edit key change) = table.contents := by
      simp only [Contents.after, hlookup]
    rw [hlookup] at hanswer
    rw [hafter, show table.fetch key = (.error .notFound, (table.fetch key).2) from
      Prod.ext hanswer rfl]
    exact ⟨hfetched, rfl, hcontents⟩
  | some value =>
    have hafter : table.contents.after (.edit key change) =
        table.contents.insert key (Record.patched value (change value)) := by
      simp only [Contents.after, hlookup]
    rw [hlookup] at hanswer
    rw [hafter, show table.fetch key = (.ok value, (table.fetch key).2) from
      Prod.ext hanswer rfl]
    have hpatch := hfetched.patch_of_lookup (hcontents ▸ hlookup) (change value)
    rw [hcontents] at hpatch
    exact ⟨hfetched.patch key (change value), rfl, hpatch.2⟩

theorem Sound.binds_of_mem (h : table.Sound) {record : Record} (hmem : record ∈ table.records) :
    table.contents.Binds record.entry :=
  h.lookup_of_mem hmem

theorem contents_eq_empty_iff : table.contents = ∅ ↔ table.entries = [] := by
  constructor
  · intro hempty
    cases hentries : table.entries with
    | nil => rfl
    | cons entry entries =>
      have hmem : entry.key ∈ table.contents := by
        rw [contents, hentries, Contents.ofEntries_cons, Finmap.mem_insert]
        exact Or.inl rfl
      rw [hempty] at hmem
      exact absurd hmem Finmap.notMem_empty
  · intro hnil
    rw [contents, hnil, Contents.ofEntries_nil]

/-- A walk starts with a binding of the map, unless there is none. -/
theorem Sound.first_conforms (h : table.Sound) :
    (table.first.1 = none ↔ table.contents = ∅) ∧
      ∀ entry ∈ table.first.1, table.contents.Binds entry := by
  rw [(first_spec table).1, contents_eq_empty_iff, List.head?_eq_none_iff]
  refine ⟨Iff.rfl, ?_⟩
  intro entry hentry
  obtain ⟨record, hmem, rfl⟩ := List.mem_map.mp (List.mem_of_mem_head? hentry)
  exact h.binds_of_mem hmem

/-- A walk goes on with a binding of the map. -/
theorem Sound.next_conforms (h : table.Sound) :
    ∀ entry ∈ table.next.1, table.contents.Binds entry := by
  rw [(next_spec table).1]
  intro entry hentry
  obtain ⟨record, hhead, rfl⟩ := Option.map_eq_some_iff.mp hentry
  exact h.binds_of_mem (mem_records_of_mem_ahead (List.mem_of_mem_head? hhead))

/-- One call is answered rightly, and has the effect that it has on a map. -/
theorem perform_spec (h : table.Sound) (call : Call) :
    (table.perform call).2.Sound ∧
      table.contents.Allows call (table.perform call).1 ∧
      (table.perform call).2.contents = table.contents.after call := by
  cases call with
  | insert key content =>
    obtain ⟨hanswer, hcontents⟩ := h.insert_conforms key content
    exact ⟨h.insert key content, congrArg Reply.value hanswer, hcontents⟩
  | store key content =>
    obtain ⟨hanswer, hcontents⟩ := h.store_spec key content
    exact ⟨h.store key content, congrArg Reply.value hanswer, hcontents⟩
  | delete key =>
    obtain ⟨hanswer, hcontents⟩ := h.delete_conforms key
    exact ⟨h.delete key, congrArg Reply.done hanswer, hcontents⟩
  | fetch key =>
    obtain ⟨hanswer, hcontents⟩ := h.fetch_spec key
    exact ⟨h.fetch key, congrArg Reply.value hanswer, hcontents⟩
  | edit key change =>
    obtain ⟨hsound, hanswer, hcontents⟩ := h.edit_spec key change
    exact ⟨hsound, congrArg Reply.value hanswer, hcontents⟩
  | reserve key length =>
    obtain ⟨hanswer, hcontents⟩ := h.insert_conforms key (.zeroed length)
    exact ⟨h.reserve key length, congrArg Reply.value hanswer, hcontents⟩
  | get key => exact ⟨h, congrArg Reply.lookup (h.lookup_contents key).symm, rfl⟩
  | contains key => exact ⟨h, congrArg Reply.holds (h.contains_eq key), rfl⟩
  | first => exact ⟨h.first, ⟨table.first.1, rfl, h.first_conforms⟩, rfl⟩
  | next => exact ⟨h.next, ⟨table.next.1, rfl, h.next_conforms⟩, rfl⟩
  | count => exact ⟨h, congrArg Reply.count h.size_contents.symm, rfl⟩

/-! ## Any number of calls -/

/-- From a sound table on, every call of a run is answered rightly. -/
theorem Sound.run_spec (h : table.Sound) (calls : List Call) :
    (table.run calls).2.Sound ∧
      table.contents.Conforms calls (table.run calls).1 ∧
      (table.run calls).2.contents = calls.foldl Contents.after table.contents := by
  induction calls generalizing table with
  | nil => exact ⟨h, trivial, rfl⟩
  | cons call calls ih =>
    obtain ⟨hsound, hallows, hcontents⟩ := perform_spec h call
    obtain ⟨hend, hconforms, hfinal⟩ := ih hsound
    rw [hcontents] at hconforms hfinal
    exact ⟨hend, ⟨hallows, hconforms⟩, hfinal⟩

/-- A table refines a finite map: from a new table on, with however many buckets,
every call of a run is answered as by a map that starts out empty, and at its end
the table holds what the map holds. -/
theorem run_conforms (wish : Nat) (calls : List Call) :
    Contents.Conforms ∅ calls ((withBuckets wish).run calls).1 ∧
      ((withBuckets wish).run calls).2.contents = calls.foldl Contents.after ∅ := by
  have hrun := (sound_withBuckets wish).run_spec calls
  rw [contents_withBuckets] at hrun
  exact hrun.2

end MemoryTable
end KeyTable
