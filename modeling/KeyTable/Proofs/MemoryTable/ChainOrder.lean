import Mathlib
import KeyTable.Proofs.MemoryTable.WalkStability
import KeyTable.Proofs.Table.Reachable

/-!
# The order of the records in a bucket

A record is added at the head of its bucket, so a bucket should be visited from the key that
was added last to the one that was added first.  But when the buckets are doubled, all
records are placed anew in the order of a walk, each at the head of its new bucket: every
bucket is turned round.

Which bucket a key is in has no part in this.  One list of all keys, the *lineup*, says for
all buckets at once in which order they have theirs.

* `LinedUp.place`, `LinedUp.split` — a key comes to the head of the lineup; doubling the
  buckets turns the lineup round.
* `InLine.after` — so any action does to the lineup what `Lineup.after` says.
* `chain_order` — the lineup of a table, whatever was done with it.  Its keys are newest
  first from one doubling to the next.
* `oldest_first_after_doubling` — two keys in one bucket, oldest first.
-/

namespace KeyTable
namespace MemoryTable

/-! ## Keys in the order of the buckets -/

/-- Do all buckets have their keys in the order of this list? -/
def LinedUp (buckets : Array (List Record)) (keys : List Bytes) : Prop :=
  ∀ n, (bucket buckets n).map Record.key = keys.filter (bucketOf · buckets.size = n)

variable {buckets : Array (List Record)} {keys : List Bytes}

theorem LinedUp.placed (h : LinedUp buckets keys) : Placed buckets := by
  intro n record hmem
  have hkey : record.key ∈ keys.filter (bucketOf · buckets.size = n) := by
    rw [← h n]
    exact List.mem_map_of_mem hmem
  simpa using (List.mem_filter.mp hkey).2

/-- A record that is placed comes to the head. -/
theorem LinedUp.place (h : LinedUp buckets keys) (hsize : 0 < buckets.size) (record : Record) :
    LinedUp (place buckets record) (record.key :: keys) := by
  intro n
  have hlt := bucketOf_lt record.key hsize
  rw [size_place, MemoryTable.place, bucket_modify _ _ hlt]
  split
  · next hsame =>
    rw [List.map_cons, hsame, h n, List.filter_cons_of_pos (by simpa using hsame)]
  · next hother =>
    rw [h n, List.filter_cons_of_neg (by simpa using hother)]

/-! ## Doubling the buckets -/

/-- Records that are placed one by one end up in their buckets in reverse. -/
theorem bucket_foldl_place (records : List Record) (buckets : Array (List Record))
    (hsize : 0 < buckets.size) (n : Nat) :
    bucket (records.foldl place buckets) n =
      (records.filter (bucketOf ·.key buckets.size = n)).reverse ++ bucket buckets n := by
  induction records generalizing buckets with
  | nil => rfl
  | cons record records ih =>
    have hlt := bucketOf_lt record.key hsize
    have hrest := ih (place buckets record) (by rwa [size_place])
    rw [size_place, place, bucket_modify _ _ hlt] at hrest
    rw [List.foldl_cons, place, hrest, List.filter_cons]
    by_cases hsame : bucketOf record.key buckets.size = n
    · simp [hsame]
    · simp [hsame]

theorem exists_of_mem_inFront {record : Record} {number : Nat}
    (h : record ∈ inFront buckets number) : ∃ i, i < number ∧ record ∈ bucket buckets i := by
  obtain ⟨chain, hchain, hrecord⟩ := List.mem_flatten.mp h
  obtain ⟨i, hi, rfl⟩ := List.mem_take_iff_getElem.mp hchain
  rw [Array.length_toList, Nat.lt_min] at hi
  refine ⟨i, hi.1, ?_⟩
  rwa [bucket_eq_getElem hi.2, ← Array.getElem_toList]

theorem exists_of_mem_behind {record : Record} {number : Nat}
    (h : record ∈ behind buckets number) : ∃ i, number < i ∧ record ∈ bucket buckets i := by
  obtain ⟨chain, hchain, hrecord⟩ := List.mem_flatten.mp h
  obtain ⟨i, hi, rfl⟩ := List.mem_drop_iff_getElem.mp hchain
  rw [Array.length_toList] at hi
  refine ⟨number + 1 + i, by omega, ?_⟩
  rwa [bucket_eq_getElem (by omega), ← Array.getElem_toList]

/-- Records whose keys belong to one bucket are all in this bucket. -/
theorem Placed.filter_flatten (h : Placed buckets) {number : Nat} (hnumber : number < buckets.size)
    (wanted : Record → Bool)
    (hwanted : ∀ record, wanted record = true → bucketOf record.key buckets.size = number) :
    buckets.toList.flatten.filter wanted = (bucket buckets number).filter wanted := by
  have hfront : (inFront buckets number).filter wanted = [] := by
    refine List.filter_eq_nil_iff.mpr ?_
    intro record hmem hrecord
    obtain ⟨i, hi, hthere⟩ := exists_of_mem_inFront hmem
    exact absurd ((h i record hthere).symm.trans (hwanted record hrecord)) (Nat.ne_of_lt hi)
  have hbehind : (behind buckets number).filter wanted = [] := by
    refine List.filter_eq_nil_iff.mpr ?_
    intro record hmem hrecord
    obtain ⟨i, hi, hthere⟩ := exists_of_mem_behind hmem
    exact absurd ((h i record hthere).symm.trans (hwanted record hrecord)) (Nat.ne_of_gt hi)
  rw [flatten_eq hnumber, List.filter_append, List.filter_append, hfront, hbehind, List.nil_append,
    List.append_nil]

/-- Doubling the buckets turns the lineup round. -/
theorem LinedUp.split (h : LinedUp buckets keys) (hsize : 0 < buckets.size) :
    LinedUp (buckets.toList.flatten.foldl MemoryTable.place (Array.replicate (2 * buckets.size) []))
      keys.reverse := by
  intro n
  have hdouble : (Array.replicate (2 * buckets.size) ([] : List Record)).size = 2 * buckets.size :=
    Array.size_replicate
  have hempty : bucket (Array.replicate (2 * buckets.size) []) n = [] := by
    rw [bucket, Array.getElem?_replicate]
    split <;> rfl
  -- the keys of the new bucket were in the old bucket `n % buckets.size`
  have hold : ∀ key, bucketOf key (2 * buckets.size) = n →
      bucketOf key buckets.size = n % buckets.size := by
    rintro key rfl
    exact (Nat.mod_mod_of_dvd _ (Nat.dvd_mul_left _ _)).symm
  have hmoved := h.placed.filter_flatten (Nat.mod_lt n hsize)
    (bucketOf ·.key (2 * buckets.size) = n)
    (fun record hrecord => hold record.key (of_decide_eq_true hrecord))
  have hkeys : ((bucket buckets (n % buckets.size)).filter
      (bucketOf ·.key (2 * buckets.size) = n)).map Record.key =
        keys.filter (bucketOf · (2 * buckets.size) = n) := by
    have hchain := h (n % buckets.size)
    rw [← Function.comp_def (fun key => decide (bucketOf key (2 * buckets.size) = n)) Record.key,
      ← List.filter_map, hchain, List.filter_filter]
    refine List.filter_congr ?_
    intro key _
    simpa using hold key
  rw [bucket_foldl_place _ _ (by omega), size_foldl_place, hdouble, hempty, List.append_nil, hmoved,
    List.map_reverse, List.filter_reverse, hkeys]

/-! ## The order of a walk -/

/-- The keys of all buckets, one bucket behind the other. -/
theorem LinedUp.flatten (h : LinedUp buckets keys) :
    buckets.toList.flatten.map Record.key =
      (List.range buckets.size).flatMap fun n => keys.filter (bucketOf · buckets.size = n) := by
  have hlist : buckets.toList = (List.range buckets.size).map (bucket buckets) := by
    refine List.ext_getElem (by simp) ?_
    intro n hn _
    rw [Array.length_toList] at hn
    rw [List.getElem_map, List.getElem_range, bucket_eq_getElem hn, Array.getElem_toList]
  rw [List.map_flatten, List.flatMap_def]
  conv_lhs => rw [hlist]
  rw [List.map_map]
  congr 1
  exact List.map_congr_left fun n _ => h n

/-! ## The lineup -/

/-- Keys after an action, with one that it adds at the head.  A key that is stored anew keeps
its place. -/
def newestFirst (keys : List Bytes) : Action → List Bytes
  | .call (.insert key _) | .call (.reserve key _) | .call (.store key _) =>
    if key ∈ keys then keys else key :: keys
  | .call (.delete key) => keys.erase key
  | _ => keys

/-- The keys of a table in the order in which its buckets have them. -/
structure Lineup where
  /-- The number of buckets. -/
  size : Nat
  /-- All keys. -/
  keys : List Bytes

namespace Lineup

/-- The lineup of a new table. -/
def new (wish : Nat) : Lineup := ⟨bucketsFor wish, []⟩

/-- The lineup with other keys, turned round if there are as many as buckets. -/
def refill (lineup : Lineup) (keys : List Bytes) : Lineup :=
  if keys.length < lineup.size then { lineup with keys } else ⟨2 * lineup.size, keys.reverse⟩

theorem refill_of_lt {lineup : Lineup} {keys : List Bytes} (h : keys.length < lineup.size) :
    lineup.refill keys = { lineup with keys } :=
  if_pos h

theorem refill_of_le {lineup : Lineup} {keys : List Bytes} (h : lineup.size ≤ keys.length) :
    lineup.refill keys = ⟨2 * lineup.size, keys.reverse⟩ :=
  if_neg (Nat.not_lt.mpr h)

/-- The lineup after an action. -/
def after (lineup : Lineup) (action : Action) : Lineup :=
  lineup.refill (newestFirst lineup.keys action)

/-- The lineup after any number of actions, one after the other. -/
def afterAll (lineup : Lineup) (actions : List Action) : Lineup := actions.foldl after lineup

/-- The keys that are in a bucket. -/
def chain (lineup : Lineup) (n : Nat) : List Bytes :=
  lineup.keys.filter (bucketOf · lineup.size = n)

/-- The keys in the order of the buckets, lowest first. -/
def walk (lineup : Lineup) : List Bytes := (List.range lineup.size).flatMap lineup.chain

end Lineup

/-- A lineup is that of a table. -/
structure InLine (lineup : Lineup) (table : MemoryTable) : Prop where
  /-- There are as many buckets. -/
  size : table.bucketCount = lineup.size
  /-- The buckets have their keys in this order. -/
  linedUp : LinedUp table.buckets lineup.keys
  /-- There are no other keys. -/
  perm : lineup.keys.Perm (table.records.map Record.key)

namespace InLine

variable {table : MemoryTable} {lineup : Lineup}

theorem new (wish : Nat) : InLine (.new wish) (withBuckets wish) where
  size := Array.size_replicate
  linedUp := by
    intro n
    rw [withBuckets, bucket, Array.getElem?_replicate]
    split <;> rfl
  perm := by simp [Lineup.new, withBuckets, records]

/-- Whatever leaves the keys where they are leaves the lineup. -/
theorem congr {other : MemoryTable} (h : InLine lineup table)
    (hkeys : other.buckets.toList.map (·.map Record.key) =
      table.buckets.toList.map (·.map Record.key)) : InLine lineup other := by
  have hbucket : ∀ (buckets : Array (List Record)) (n : Nat), (bucket buckets n).map Record.key =
      (buckets.toList.map (·.map Record.key))[n]?.getD [] := by
    intro buckets n
    rw [bucket, List.getElem?_map, Array.getElem?_toList]
    cases buckets[n]? <;> rfl
  have hsize : other.buckets.size = table.buckets.size := by
    simpa using congrArg List.length hkeys
  refine ⟨hsize.trans h.size, ?_, ?_⟩
  · intro n
    rw [hbucket, hkeys, ← hbucket, hsize]
    exact h.linedUp n
  · rw [records, List.map_flatten, hkeys, ← List.map_flatten]
    exact h.perm

theorem of_same {other : MemoryTable} (h : InLine lineup table)
    (hsame : SameRecords other table) : InLine lineup other :=
  h.congr (by rw [hsame.buckets])

theorem length_keys (h : InLine lineup table) (hsound : table.Sound) :
    lineup.keys.length = table.count := by
  rw [h.perm.length_eq, List.length_map, hsound.counted]

theorem mem_keys_iff (h : InLine lineup table) {key : Bytes} :
    key ∈ lineup.keys ↔ key ∈ table.contents := by
  rw [h.perm.mem_iff, mem_contents_iff, List.mem_map]

theorem refill_keys (h : InLine lineup table) (hsound : table.Sound) :
    lineup.refill lineup.keys = lineup := by
  refine Lineup.refill_of_lt ?_
  rw [h.length_keys hsound, ← h.size]
  exact hsound.room

theorem link (h : InLine lineup table) (hsound : table.Sound) (record : Record) :
    InLine (lineup.refill (record.key :: lineup.keys)) (table.link record) := by
  have hplaced := h.linedUp.place hsound.size_pos record
  have hperm : (record.key :: lineup.keys).Perm ((table.link record).records.map Record.key) :=
    (h.perm.cons record.key).trans ((perm_link hsound.size_pos record).map Record.key).symm
  have hlength := h.length_keys hsound
  have hsize := h.size
  by_cases hroom : table.count + 1 < table.bucketCount
  · rw [Lineup.refill_of_lt (by rw [List.length_cons]; omega)]
    refine ⟨?_, ?_, hperm⟩
    · rw [bucketCount_link, if_neg (by omega), hsize]
    · rw [buckets_link, if_neg (by omega)]
      exact hplaced
  · rw [Lineup.refill_of_le (by rw [List.length_cons]; omega)]
    refine ⟨?_, ?_, (List.reverse_perm _).trans hperm⟩
    · rw [bucketCount_link, if_pos (by omega), hsize]
    · have hturned := hplaced.split (by rw [size_place]; exact hsound.size_pos)
      rw [size_place] at hturned
      rw [buckets_link, if_pos (by omega)]
      exact hturned

theorem nodup_keys (h : InLine lineup table) (hsound : table.Sound) : lineup.keys.Nodup :=
  h.perm.nodup_iff.mpr hsound.nodup

theorem unlink (h : InLine lineup table) (hsound : table.Sound) {position : Position}
    {record : Record} (hat : table.recordAt? position = some record) :
    InLine (lineup.refill (lineup.keys.erase record.key)) (table.unlink position) := by
  have herase : lineup.keys.erase record.key = lineup.keys.filter (· ≠ record.key) := by
    rw [(h.nodup_keys hsound).erase_eq_filter]
    exact List.filter_congr fun key _ => by rw [bne, beq_eq_decide, decide_not]
  have hsize : (table.unlink position).buckets.size = table.buckets.size := Array.size_modify
  have hroom : (lineup.keys.erase record.key).length < lineup.size := by
    have hle : (lineup.keys.erase record.key).length ≤ lineup.keys.length := List.length_erase_le
    rw [h.length_keys hsound] at hle
    exact h.size ▸ Nat.lt_of_le_of_lt hle hsound.room
  rw [Lineup.refill_of_lt hroom]
  refine ⟨hsize.trans h.size, ?_, ?_⟩
  · intro n
    have hbucket := (bucket_behind_of_map (hsound.toList_unlink hat) List.filter_nil n).1
    have hkeys : ((bucket table.buckets n).filter (·.key ≠ record.key)).map Record.key =
        ((bucket table.buckets n).map Record.key).filter (· ≠ record.key) := by
      rw [List.filter_map]
      rfl
    rw [hbucket, hkeys, h.linedUp n, hsize]
    show _ = (lineup.keys.erase record.key).filter _
    rw [herase, List.filter_comm]
  · obtain ⟨front, back, hall, -, hafter⟩ := exists_at hat
    have hmem : record.key ∈ lineup.keys := by
      rw [h.perm.mem_iff]
      exact List.mem_map_of_mem (mem_records_of_recordAt? hat)
    have hperm := (List.perm_cons_erase hmem).symm.trans h.perm
    rw [hall, List.map_append, List.map_cons] at hperm
    rw [hafter, List.map_append]
    exact (hperm.trans List.perm_middle).cons_inv

/-- Adding a key that is absent brings it to the head of the lineup. -/
theorem link_make (h : InLine lineup table) (hsound : table.Sound) {key : Bytes}
    (content : Content) : InLine (lineup.refill (key :: lineup.keys))
      (table.link (Record.make key content)) := by
  have hlink := h.link hsound (Record.make key content)
  rwa [Record.key_make] at hlink

theorem insert (h : InLine lineup table) (hsound : table.Sound) (key : Bytes)
    (content : Content) :
    InLine (lineup.after (.call (.insert key content))) (table.insert key content).2 := by
  by_cases hmem : key ∈ table.contents
  · rw [Lineup.after, newestFirst, if_pos (h.mem_keys_iff.mpr hmem), h.refill_keys hsound]
    exact h.of_same (hsound.sameRecords_insert hmem content)
  · rw [Lineup.after, newestFirst, if_neg (mt h.mem_keys_iff.mp hmem), MemoryTable.insert,
      (hsound.locate?_eq_none_iff_notMem key).mpr hmem]
    exact h.link_make hsound content

theorem store (h : InLine lineup table) (hsound : table.Sound) (key : Bytes)
    (content : Content) :
    InLine (lineup.after (.call (.store key content))) (table.store key content).2 := by
  by_cases hmem : key ∈ table.contents
  · obtain ⟨position, record, hlocate, hat, rfl⟩ := hsound.exists_of_mem hmem
    rw [Lineup.after, newestFirst, if_pos (h.mem_keys_iff.mpr hmem), h.refill_keys hsound,
      MemoryTable.store, hlocate]
    exact h.congr (keys_modifyAt hat (record.key_assign content))
  · rw [Lineup.after, newestFirst, if_neg (mt h.mem_keys_iff.mp hmem), MemoryTable.store,
      (hsound.locate?_eq_none_iff_notMem key).mpr hmem]
    exact h.link_make hsound content

theorem delete (h : InLine lineup table) (hsound : table.Sound) (key : Bytes) :
    InLine (lineup.after (.call (.delete key))) (table.delete key).2 := by
  by_cases hmem : key ∈ table.contents
  · obtain ⟨position, record, hlocate, hat, rfl⟩ := hsound.exists_of_mem hmem
    rw [MemoryTable.delete, hlocate]
    exact (h.unlink hsound hat).of_same ⟨rfl, rfl⟩
  · rw [Lineup.after, newestFirst, List.erase_of_not_mem (mt h.mem_keys_iff.mp hmem),
      h.refill_keys hsound, hsound.delete_of_notMem hmem]
    exact h

theorem patch (h : InLine lineup table) (hsound : table.Sound) (key bytes : Bytes) :
    InLine lineup (table.patch key bytes).2 := by
  cases hlocate : table.locate? key with
  | none =>
    rw [MemoryTable.patch, hlocate]
    exact h.of_same ⟨rfl, rfl⟩
  | some position =>
    obtain ⟨record, hat, -⟩ := hsound.exists_of_locate? hlocate
    have hrecord := hsound.laidOut record (mem_records_of_recordAt? hat)
    rw [MemoryTable.patch, hlocate]
    exact h.congr (keys_modifyAt hat (Record.key_patch hrecord bytes))

theorem edit (h : InLine lineup table) (hsound : table.Sound) (key : Bytes)
    (change : Bytes → Bytes) : InLine lineup (table.edit key change).2 := by
  have hfetched := h.of_same (table.sameRecords_fetch key)
  have hpatched := fun bytes => hfetched.patch (hsound.fetch key) key bytes
  rw [MemoryTable.edit]
  cases hfetch : table.fetch key with
  | mk answer fetched =>
    rw [hfetch] at hfetched hpatched
    cases answer with
    | ok value => exact hpatched (change value)
    | error fault => exact hfetched

/-- An action does to the lineup what it should. -/
theorem after (h : InLine lineup table) (hsound : table.Sound) (action : Action) :
    InLine (lineup.after action) (table.after action) := by
  have hcalm : ∀ {other}, InLine lineup other → InLine (lineup.refill lineup.keys) other := by
    rw [h.refill_keys hsound]
    exact id
  cases action with
  | scan count => exact hcalm h
  | call call =>
    cases call with
    | insert key content => exact h.insert hsound key content
    | reserve key length => exact h.insert hsound key (.zeroed length)
    | store key content => exact h.store hsound key content
    | delete key => exact h.delete hsound key
    | edit key change => exact hcalm (h.edit hsound key change)
    | fetch key => exact hcalm (h.of_same (table.sameRecords_fetch key))
    | first => exact hcalm (h.of_same table.sameRecords_first)
    | next => exact hcalm (h.of_same table.sameRecords_next)
    | get key | contains key | count => exact hcalm h

theorem afterAll (h : InLine lineup table) (hsound : table.Sound) (actions : List Action) :
    InLine (lineup.afterAll actions) (table.afterAll actions) := by
  induction actions generalizing lineup table with
  | nil => exact h
  | cons action actions ih => exact ih (h.after hsound action) (hsound.after action)

/-- The keys of all records in the order in which they are visited. -/
theorem keys_entries (h : InLine lineup table) : table.entries.map Entry.key = lineup.walk := by
  rw [MemoryTable.keys_entries, records, h.linedUp.flatten, ← bucketCount_eq, h.size]
  rfl

end InLine

/-! ## Newest first, until the buckets are doubled -/

namespace Lineup

variable {lineup : Lineup}

theorem size_le_after (lineup : Lineup) (action : Action) :
    lineup.size ≤ (lineup.after action).size := by
  rw [after, refill]
  split
  · exact Nat.le_refl _
  · exact Nat.le_mul_of_pos_left _ (by decide)

theorem size_le_afterAll (lineup : Lineup) (actions : List Action) :
    lineup.size ≤ (lineup.afterAll actions).size := by
  induction actions generalizing lineup with
  | nil => exact Nat.le_refl _
  | cons action actions ih => exact Nat.le_trans (lineup.size_le_after action) (ih _)

/-- As long as the buckets are not doubled, keys are only added at the head. -/
theorem keys_afterAll (hpos : 0 < lineup.size) {actions : List Action}
    (hsize : (lineup.afterAll actions).size = lineup.size) :
    (lineup.afterAll actions).keys = actions.foldl newestFirst lineup.keys := by
  induction actions generalizing lineup with
  | nil => rfl
  | cons action actions ih =>
    have hfirst := lineup.size_le_after action
    have hrest : (lineup.after action).size ≤ (lineup.afterAll (action :: actions)).size :=
      size_le_afterAll _ actions
    have hsame : (lineup.after action).size = lineup.size := by omega
    have hkeys : (lineup.after action).keys = newestFirst lineup.keys action := by
      rcases Nat.lt_or_ge (newestFirst lineup.keys action).length lineup.size with hroom | hfull
      · rw [after, refill_of_lt hroom]
      · rw [after, refill_of_le hfull] at hsame
        have hdouble : 2 * lineup.size = lineup.size := hsame
        omega
    have hpos' : 0 < (lineup.after action).size := by omega
    have hlater := ih hpos' (hsize.trans hsame.symm)
    rw [hkeys] at hlater
    exact hlater

end Lineup

/-- In which order a table visits its records that was made with so many buckets, and with
which these actions were taken. -/
structure Visited (wish : Nat) (actions : List Action) : Prop where
  /-- There are as many buckets as the lineup has. -/
  size : ((withBuckets wish).afterAll actions).bucketCount =
    ((Lineup.new wish).afterAll actions).size
  /-- Every bucket has its keys in the order of the lineup. -/
  chains : ∀ n, (((withBuckets wish).afterAll actions).chain n).map Record.key =
    ((Lineup.new wish).afterAll actions).chain n
  /-- A walk visits the buckets from the lowest on, each in its order. -/
  walked : (Table.memory ((withBuckets wish).afterAll actions)).each.1.map Entry.key =
    ((Lineup.new wish).afterAll actions).walk
  /-- So does a scan. -/
  scanned : (((withBuckets wish).afterAll actions).scan.take
      ((withBuckets wish).afterAll actions).count).1.map Entry.key =
    ((Lineup.new wish).afterAll actions).walk
  /-- From the time when the number of buckets came to be what it is, the keys are newest first:
  those that were there then come last, in the order that they had then. -/
  newest : ∀ before later, actions = before ++ later →
    ((withBuckets wish).afterAll before).bucketCount =
        ((withBuckets wish).afterAll actions).bucketCount →
      ((Lineup.new wish).afterAll actions).keys =
        later.foldl newestFirst ((Lineup.new wish).afterAll before).keys

/-- The records of a table are visited bucket by bucket, and each bucket in the order of the
lineup, which is newest first but for the keys from before the last doubling. -/
theorem chain_order (wish : Nat) (actions : List Action) : Visited wish actions := by
  have hsound := (sound_withBuckets wish).afterAll actions
  have hline := (InLine.new wish).afterAll (sound_withBuckets wish) actions
  refine ⟨hline.size, ?_, ?_, ?_, ?_⟩
  · intro n
    have hchain := hline.linedUp n
    rw [← bucketCount_eq, hline.size] at hchain
    exact hchain
  · rw [(Table.each_spec _).1]
    exact hline.keys_entries
  · rw [hsound.take_scan_count]
    exact hline.keys_entries
  · rintro before later rfl hsize
    have hbefore := (InLine.new wish).afterAll (sound_withBuckets wish) before
    have hpos := ((sound_withBuckets wish).afterAll before).size_pos
    rw [hline.size, hbefore.size] at hsize
    rw [← bucketCount_eq, hbefore.size] at hpos
    have hsplit : (Lineup.new wish).afterAll (before ++ later) =
        ((Lineup.new wish).afterAll before).afterAll later := List.foldl_append
    rw [hsplit] at hsize ⊢
    exact Lineup.keys_afterAll hpos hsize.symm

/-- Two keys of one bucket, the second of which makes the buckets double. -/
def twoOfOneBucket : List Action :=
  [.call (.insert [0x61] (.given [0x78])), .call (.insert [0x63] (.given [0x79]))]

/-- The key that was added first is visited first. -/
theorem oldest_first_after_doubling :
    twoOfOneBucket.foldl newestFirst [] = [[0x63], [0x61]] ∧
      (((withBuckets 2).afterAll twoOfOneBucket).chain 3).map Record.key = [[0x61], [0x63]] ∧
      (Table.memory ((withBuckets 2).afterAll twoOfOneBucket)).each.1.map Entry.key =
        [[0x61], [0x63]] := by
  decide +kernel

end MemoryTable
end KeyTable
