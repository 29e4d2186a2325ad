import KeyTable.Proofs.MemoryTable.Actions

/-!
# What the cursor is on

The cursor is a position in buckets that shift with every record that is added or removed,
and are placed anew when a table grows.  This file says that it never dangles: it is on a
record or nowhere, and the record is the one that was touched last, with the value that it
has now.

* `Aimed` — the cursor is on a record or nowhere.
* `Sound.onKey_fetch`, `Sound.onKey_insert`, `Sound.onKey_store`, `Sound.onKey_edit` — where
  a call leaves the cursor that asks for a key or adds one.
* `Sound.cursor_delete`, `aimed_next` — where a delete and the steps of a walk leave it.
* `Sound.follows` — so one action leaves it on what was touched.
* `cursor_follows` — and any number of actions do.
-/

namespace KeyTable
namespace MemoryTable

variable {table : MemoryTable}

/-! ## Cursors that do not dangle -/

/-- Is the cursor on a record or nowhere? -/
def Aimed (table : MemoryTable) : Prop :=
  ∀ position, table.cursor = some position → ∃ record, table.recordAt? position = some record

theorem aimed_withBuckets (wish : Nat) : (withBuckets wish).Aimed := fun _ => nofun

/-- A cursor that is nowhere does not dangle. -/
theorem aimed_of_cursor_eq_none (h : table.cursor = none) : table.Aimed := by
  intro position hcursor
  rw [h] at hcursor
  cases hcursor

/-- A cursor with a record to show does not dangle. -/
theorem aimed_of_current {entry : Entry} (h : table.current = some entry) : table.Aimed := by
  intro position hcursor
  simp only [current, hcursor, Option.bind_eq_bind, Option.bind_some,
    Option.bind_eq_some_iff] at h
  obtain ⟨record, hat, -⟩ := h
  exact ⟨record, hat⟩

/-- What is shown is the record at the cursor. -/
theorem current_of_recordAt? {position : Position} {record : Record}
    (hcursor : table.cursor = some position) (hat : table.recordAt? position = some record) :
    table.current = some record.entry := by
  simp [current, hcursor, hat]

theorem current_of_cursor_eq_none (h : table.cursor = none) : table.current = none := by
  simp [current, h]

/-- A cursor that does not dangle shows a record unless it is nowhere. -/
theorem Aimed.current_eq_none_iff (h : table.Aimed) :
    table.current = none ↔ table.cursor = none := by
  refine ⟨?_, current_of_cursor_eq_none⟩
  intro hcurrent
  cases hcursor : table.cursor with
  | none => rfl
  | some position =>
    obtain ⟨record, hat⟩ := h position hcursor
    rw [current_of_recordAt? hcursor hat] at hcurrent
    cases hcurrent

/-- What is shown is in the table, with the value that it has. -/
theorem Sound.binds_of_current (h : table.Sound) {entry : Entry}
    (hcurrent : table.current = some entry) : table.contents.Binds entry := by
  simp only [current, Option.bind_eq_bind, Option.bind_eq_some_iff] at hcurrent
  obtain ⟨position, -, record, hat, hentry⟩ := hcurrent
  cases hentry
  exact h.binds_of_mem (mem_records_of_recordAt? hat)

/-! ## One call -/

/-- Is the cursor on the record of a key, if there is one, and nowhere else? -/
structure OnKey (table : MemoryTable) (key : Bytes) : Prop where
  /-- What is shown is the key with its present value. -/
  current : table.current = (table.contents.lookup key).map (Entry.mk key)
  /-- The cursor does not dangle. -/
  aimed : table.Aimed

theorem Sound.onKey_of_recordAt? (h : table.Sound) {position : Position} {record : Record}
    (hcursor : table.cursor = some position) (hat : table.recordAt? position = some record) :
    table.OnKey record.key := by
  have hcurrent := current_of_recordAt? hcursor hat
  refine ⟨?_, aimed_of_current hcurrent⟩
  rw [hcurrent, h.lookup_of_mem (mem_records_of_recordAt? hat)]
  rfl

/-- A fetch moves the cursor onto the key, or clears it. -/
theorem Sound.onKey_fetch (h : table.Sound) (key : Bytes) : (table.fetch key).2.OnKey key := by
  have hsound := h.fetch key
  have hcontents := (h.fetch_spec key).2
  have hcursor : (table.fetch key).2.cursor = table.locate? key := rfl
  cases hlocate : table.locate? key with
  | none =>
    rw [hlocate] at hcursor
    have hmem := (h.locate?_eq_none_iff_notMem key).mp hlocate
    refine ⟨?_, aimed_of_cursor_eq_none hcursor⟩
    rw [current_of_cursor_eq_none hcursor, hcontents, Finmap.lookup_eq_none.mpr hmem]
    rfl
  | some position =>
    obtain ⟨record, hat, rfl⟩ := h.exists_of_locate? hlocate
    exact hsound.onKey_of_recordAt? (hcursor.trans hlocate) hat

/-- Adding a record leaves the cursor on it, whether the buckets split or not. -/
theorem Sound.onKey_link_make (h : table.Sound) {key : Bytes} (hnone : table.locate? key = none)
    (content : Content) : (table.link (Record.make key content)).OnKey key := by
  have hmem := (h.locate?_eq_none_iff_notMem key).mp hnone
  have hnew : ∀ other ∈ table.records, other.key ≠ (Record.make key content).key := by
    rw [Record.key_make]
    exact (h.locate?_eq_none_iff key).mp hnone
  have hcurrent := h.current_link (Record.sound_make key content) hnew
  refine ⟨?_, aimed_of_current hcurrent⟩
  rw [hcurrent, (h.link_make_spec hmem content).2, Finmap.lookup_insert]
  simp [Record.entry, Record.key_make, Record.value_make]

theorem Sound.onKey_insert (h : table.Sound) (key : Bytes) (content : Content) :
    (table.insert key content).2.OnKey key := by
  have hsound := h.insert key content
  unfold MemoryTable.insert at hsound ⊢
  cases hlocate : table.locate? key with
  | none => exact h.onKey_link_make hlocate content
  | some position =>
    rw [hlocate] at hsound
    obtain ⟨record, hat, rfl⟩ := h.exists_of_locate? hlocate
    exact hsound.onKey_of_recordAt? rfl hat

theorem Sound.onKey_store (h : table.Sound) (key : Bytes) (content : Content) :
    (table.store key content).2.OnKey key := by
  have hsound := h.store key content
  unfold MemoryTable.store at hsound ⊢
  cases hlocate : table.locate? key with
  | none => exact h.onKey_link_make hlocate content
  | some position =>
    rw [hlocate] at hsound
    obtain ⟨record, hat, rfl⟩ := h.exists_of_locate? hlocate
    rw [← record.key_assign content]
    exact hsound.onKey_of_recordAt? rfl (recordAt?_modifyAt hat _)

theorem Sound.onKey_patch (h : table.Sound) (key bytes : Bytes) :
    (table.patch key bytes).2.OnKey key := by
  have hsound := h.patch key bytes
  unfold MemoryTable.patch at hsound ⊢
  cases hlocate : table.locate? key with
  | none =>
    have hmem := (h.locate?_eq_none_iff_notMem key).mp hlocate
    refine ⟨?_, aimed_of_cursor_eq_none rfl⟩
    show none = (table.contents.lookup key).map _
    rw [Finmap.lookup_eq_none.mpr hmem]
    rfl
  | some position =>
    rw [hlocate] at hsound
    obtain ⟨record, hat, rfl⟩ := h.exists_of_locate? hlocate
    have hrecord := h.laidOut record (mem_records_of_recordAt? hat)
    rw [← Record.key_patch hrecord bytes]
    exact hsound.onKey_of_recordAt? rfl (recordAt?_modifyAt hat _)

/-- To change a value in place is to fetch it and to write over it. -/
theorem Sound.onKey_edit (h : table.Sound) (key : Bytes) (change : Bytes → Bytes) :
    (table.edit key change).2.OnKey key := by
  have hfetch := h.onKey_fetch key
  unfold edit
  split
  · next value fetched hsplit =>
    have hfetched : fetched.Sound := by
      have hsound := h.fetch key
      rw [hsplit] at hsound
      exact hsound
    exact hfetched.onKey_patch key (change value)
  · next fault fetched hsplit =>
    rw [hsplit] at hfetch
    exact hfetch

/-- A delete clears the cursor, or leaves it. -/
theorem Sound.cursor_delete (h : table.Sound) (key : Bytes) :
    (table.delete key).2.cursor = if key ∈ table.contents then none else table.cursor := by
  by_cases hmem : key ∈ table.contents
  · obtain ⟨position, -, hlocate, -, -⟩ := h.exists_of_mem hmem
    rw [if_pos hmem, MemoryTable.delete, hlocate]
  · rw [if_neg hmem, h.delete_of_notMem hmem]

/-- The walk finds only what is there. -/
theorem exists_of_seek {buckets : Array (List Record)} {remaining : Nat} {walk position : Position}
    (h : (seek buckets remaining walk).1 = some position) :
    ∃ record, (bucket buckets position.bucket)[position.depth]? = some record := by
  induction remaining generalizing walk with
  | zero => cases h
  | succ remaining ih =>
    by_cases hlt : walk.depth < (bucket buckets walk.bucket).length
    · have hseek : seek buckets (remaining + 1) walk =
          (some walk, { walk with depth := walk.depth + 1 }) := if_pos hlt
      rw [hseek, Option.some_inj] at h
      subst h
      exact ⟨_, List.getElem?_eq_getElem hlt⟩
    · have hseek : seek buckets (remaining + 1) walk =
          seek buckets remaining ⟨walk.bucket + 1, 0⟩ := if_neg hlt
      rw [hseek] at h
      exact ih h

theorem aimed_next (table : MemoryTable) : table.next.2.Aimed :=
  fun _ => exists_of_seek

theorem aimed_first (table : MemoryTable) : table.first.2.Aimed := aimed_next _

/-! ## One action -/

/-- Is what is shown after an action what the action has touched?  A call that asks for a key
or changes it leaves the cursor on the key, one that adds it does so in any case; a delete
clears it, a walk takes it along, and everything else leaves it alone. -/
def Shows (table : MemoryTable) (action : Action) : Prop :=
  match action with
  | .call (.fetch key) | .call (.edit key _) =>
    (table.after action).current = ((table.after action).contents.lookup key).map (Entry.mk key)
  | .call (.insert key _) | .call (.store key _) | .call (.reserve key _) =>
    ∃ value, (table.after action).contents.lookup key = some value ∧
      (table.after action).current = some ⟨key, value⟩
  | .call (.delete key) =>
    (table.after action).current = if key ∈ table.contents then none else table.current
  | .call .first | .call .next =>
    (table.act action).1 = .reply (.step (table.after action).current)
  | .call (.get _) | .call (.contains _) | .call .count | .scan _ =>
    (table.after action).current = table.current

/-- The key whose value an action answers with, as it is after the action. -/
def Action.answersFor? : Action → Option Bytes
  | .call (.fetch key) | .call (.insert key _) | .call (.store key _) | .call (.reserve key _) =>
    some key
  | _ => none

/-- Does the cursor follow an action? -/
structure Follows (table : MemoryTable) (action : Action) : Prop where
  /-- The cursor does not dangle: it shows a record unless it is nowhere. -/
  aimed : (table.after action).current = none ↔ (table.after action).cursor = none
  /-- What is shown is in the table, with its present value. -/
  binds : ∀ entry, (table.after action).current = some entry →
    (table.after action).contents.Binds entry
  /-- It is what was touched last. -/
  shows : table.Shows action
  /-- A value that was answered is the one that is shown. -/
  told : ∀ key value, action.answersFor? = some key →
    (table.act action).1 = .reply (.value (.ok value)) →
      (table.after action).current = some ⟨key, value⟩

theorem Aimed.after (h : table.Aimed) (hsound : table.Sound) (action : Action) :
    (table.after action).Aimed := by
  cases action with
  | scan count => exact h
  | call call =>
    cases call with
    | insert key content => exact (hsound.onKey_insert key content).aimed
    | store key content => exact (hsound.onKey_store key content).aimed
    | delete key =>
      by_cases hmem : key ∈ table.contents
      · refine aimed_of_cursor_eq_none ((hsound.cursor_delete key).trans ?_)
        exact if_pos hmem
      · show (table.delete key).2.Aimed
        rw [hsound.delete_of_notMem hmem]
        exact h
    | fetch key => exact (hsound.onKey_fetch key).aimed
    | edit key change => exact (hsound.onKey_edit key change).aimed
    | reserve key length => exact (hsound.onKey_insert key _).aimed
    | get key => exact h
    | contains key => exact h
    | first => exact table.aimed_first
    | next => exact table.aimed_next
    | count => exact h

theorem Aimed.afterAll (h : table.Aimed) (hsound : table.Sound) (actions : List Action) :
    (table.afterAll actions).Aimed := by
  induction actions generalizing table with
  | nil => exact h
  | cons action actions ih => exact ih (h.after hsound action) (hsound.after action)

/-- A key that an insert was asked for is there afterwards, one way or the other. -/
theorem Sound.exists_of_insert (h : table.Sound) (key : Bytes) (content : Content) :
    ∃ value, (table.insert key content).2.contents.lookup key = some value ∧
      (table.insert key content).2.current = some ⟨key, value⟩ ∧
      ∀ answer, (table.insert key content).1 = .ok answer → answer = value := by
  obtain ⟨hanswer, hcontents⟩ := h.insert_conforms key content
  have hcurrent := (h.onKey_insert key content).current
  rw [hcontents] at hcurrent ⊢
  rw [hanswer, Contents.added]
  by_cases hmem : key ∈ table.contents
  · rw [if_pos hmem] at hcurrent ⊢
    obtain ⟨value, hvalue⟩ := Finmap.mem_iff.mp hmem
    rw [hvalue] at hcurrent
    refine ⟨value, hvalue, hcurrent, ?_⟩
    rw [if_pos hmem]
    exact nofun
  · rw [if_neg hmem, Finmap.lookup_insert] at hcurrent
    refine ⟨content.toBytes, ?_, hcurrent, ?_⟩
    · rw [if_neg hmem, Finmap.lookup_insert]
    · rw [if_neg hmem]
      intro answer hsame
      cases hsame
      rfl

theorem Sound.exists_of_store (h : table.Sound) (key : Bytes) (content : Content) :
    ∃ value, (table.store key content).2.contents.lookup key = some value ∧
      (table.store key content).2.current = some ⟨key, value⟩ ∧
      (table.store key content).1 = .ok value := by
  obtain ⟨hanswer, hcontents⟩ := h.store_spec key content
  have hcurrent := (h.onKey_store key content).current
  rw [hcontents, Finmap.lookup_insert] at hcurrent
  refine ⟨content.toBytes, ?_, hcurrent, hanswer⟩
  rw [hcontents, Finmap.lookup_insert]

/-- What is shown after an action is what was touched. -/
theorem Sound.shows (h : table.Sound) (action : Action) : table.Shows action := by
  cases action with
  | scan count => rfl
  | call call =>
    cases call with
    | insert key content =>
      obtain ⟨value, hlookup, hcurrent, -⟩ := h.exists_of_insert key content
      exact ⟨value, hlookup, hcurrent⟩
    | store key content =>
      obtain ⟨value, hlookup, hcurrent, -⟩ := h.exists_of_store key content
      exact ⟨value, hlookup, hcurrent⟩
    | delete key =>
      have hcursor := h.cursor_delete key
      show (table.delete key).2.current = _
      by_cases hmem : key ∈ table.contents
      · rw [if_pos hmem] at hcursor ⊢
        exact current_of_cursor_eq_none hcursor
      · rw [if_neg hmem, h.delete_of_notMem hmem]
    | fetch key => exact (h.onKey_fetch key).current
    | edit key change => exact (h.onKey_edit key change).current
    | reserve key length =>
      obtain ⟨value, hlookup, hcurrent, -⟩ := h.exists_of_insert key (.zeroed length)
      exact ⟨value, hlookup, hcurrent⟩
    | get key => rfl
    | contains key => rfl
    | first => rfl
    | next => rfl
    | count => rfl

/-- A fetched value is the one that is shown. -/
theorem Sound.told_fetch (h : table.Sound) {key value : Bytes}
    (hanswer : (table.fetch key).1 = .ok value) :
    (table.fetch key).2.current = some ⟨key, value⟩ := by
  obtain ⟨hfound, hcontents⟩ := h.fetch_spec key
  have hcurrent := (h.onKey_fetch key).current
  rw [hanswer] at hfound
  rw [hcurrent, hcontents]
  cases hlookup : table.contents.lookup key with
  | none =>
    rw [hlookup] at hfound
    cases hfound
  | some present =>
    rw [hlookup] at hfound
    cases hfound
    rfl

/-- So is a value that was added. -/
theorem Sound.told_insert (h : table.Sound) {key value : Bytes} {content : Content}
    (hanswer : (table.insert key content).1 = .ok value) :
    (table.insert key content).2.current = some ⟨key, value⟩ := by
  obtain ⟨present, -, hcurrent, hsame⟩ := h.exists_of_insert key content
  rw [hcurrent, hsame value hanswer]

/-- So is a value that was stored. -/
theorem Sound.told_store (h : table.Sound) {key value : Bytes} {content : Content}
    (hanswer : (table.store key content).1 = .ok value) :
    (table.store key content).2.current = some ⟨key, value⟩ := by
  obtain ⟨present, -, hcurrent, hsame⟩ := h.exists_of_store key content
  rw [hanswer, Except.ok.injEq] at hsame
  rw [hcurrent, hsame]

/-- A value that was answered is shown. -/
theorem Sound.told (h : table.Sound) {action : Action} {key value : Bytes}
    (hkey : action.answersFor? = some key)
    (hreply : (table.act action).1 = .reply (.value (.ok value))) :
    (table.after action).current = some ⟨key, value⟩ := by
  cases action with
  | scan count => cases hkey
  | call call =>
    have hanswer : (table.perform call).1 = .value (.ok value) := Response.reply.inj hreply
    cases call with
    | fetch other =>
      cases hkey
      exact h.told_fetch (Reply.value.inj hanswer)
    | insert other content =>
      cases hkey
      exact h.told_insert (Reply.value.inj hanswer)
    | reserve other length =>
      cases hkey
      exact h.told_insert (Reply.value.inj hanswer)
    | store other content =>
      cases hkey
      exact h.told_store (Reply.value.inj hanswer)
    | delete | edit | get | contains | first | next | count => cases hkey

/-- One action leaves the cursor on what was touched. -/
theorem Sound.follows (h : table.Sound) (haimed : table.Aimed) (action : Action) :
    table.Follows action where
  aimed := (haimed.after h action).current_eq_none_iff
  binds := fun _ => (h.after action).binds_of_current
  shows := h.shows action
  told := fun _ _ => h.told

/-- On a new table the cursor is nowhere, and from then on it follows every action. -/
theorem cursor_follows (wish : Nat) (actions : List Action) :
    (withBuckets wish).current = none ∧
      ∀ action, ((withBuckets wish).afterAll actions).Follows action := by
  have hsound := sound_withBuckets wish
  refine ⟨rfl, ?_⟩
  intro action
  exact (hsound.afterAll actions).follows ((aimed_withBuckets wish).afterAll hsound actions) action

end MemoryTable
end KeyTable
