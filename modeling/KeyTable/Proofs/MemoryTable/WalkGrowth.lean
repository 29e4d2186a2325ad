import KeyTable.Proofs.MemoryTable.ChainOrder
import KeyTable.Proofs.MemoryTable.InStep
import KeyTable.Proofs.Table.Exhausted

/-!
# Keys that are added during a walk

Removing a record takes the walk along, but adding one does not: the walk keeps its bucket
and its depth, whatever comes to stand there.  A record that is added to the bucket that the
walk is in pushes the record that was returned last under the walk again; and when the
buckets are doubled, the walk keeps a place among buckets that have all been filled anew.

* `rest`, `Sound.rest_eq` — the keys that a walk comes to from now on are those ahead of it.
* `ahead_place_of_lt`, `ahead_place_of_gt`, `ahead_place_of_eq` — what a record that is added
  does to those ahead, by its bucket.
* `Sound.mem_aheadKeys_iff`, `InLine.chain_doubled` — what is ahead when the buckets have been
  doubled.
* `rest_of_added` — so what an added key makes of the rest of a walk.
* `walk_disturbed` — and that a walk does return a record twice, and misses one.
-/

namespace KeyTable
namespace MemoryTable

variable {table : MemoryTable}

/-! ## The rest of a walk -/

/-- So many steps of the walk, and nothing in between. -/
def steps (count : Nat) : List Action := List.replicate count (.call .next)

/-- The keys that the walk comes to if it goes on for as long as there can be any. -/
def rest (table : MemoryTable) : List Bytes := table.returnedKeys (steps table.count)

/-- Steps of the walk return the first keys ahead, and leave the others ahead. -/
theorem returnedKeys_steps (count : Nat) (table : MemoryTable) :
    table.returnedKeys (steps count) = table.aheadKeys.take count ∧
      (table.afterAll (steps count)).aheadKeys = table.aheadKeys.drop count := by
  induction count generalizing table with
  | zero => exact ⟨rfl, rfl⟩
  | succ count ih =>
    obtain ⟨hreturned, hahead⟩ := ih (table.after (.call .next))
    have hstep : (table.act (.call .next)).1.step?.toList.map Entry.key =
        table.aheadKeys.take 1 := by
      show table.next.1.toList.map Entry.key = _
      rw [(next_spec table).1, aheadKeys]
      cases ahead table.buckets table.walk <;> rfl
    rw [aheadKeys_next] at hreturned hahead
    have hmore : steps (count + 1) = .call .next :: steps count := List.replicate_succ
    refine ⟨?_, ?_⟩
    · rw [hmore, returnedKeys_cons, hreturned, hstep, ← List.drop_one, ← List.take_add,
        Nat.add_comm]
    · rw [hmore]
      show ((table.after (.call .next)).afterAll (steps count)).aheadKeys = _
      rw [hahead, List.drop_tail]

theorem Sound.nodup_aheadKeys (h : table.Sound) : table.aheadKeys.Nodup :=
  h.nodup.sublist ((ahead_suffix table.buckets table.walk).sublist.map Record.key)

theorem Sound.length_aheadKeys_le (h : table.Sound) : table.aheadKeys.length ≤ table.count := by
  rw [h.counted, aheadKeys, List.length_map]
  exact (ahead_suffix table.buckets table.walk).length_le

/-- The walk comes to the keys ahead of it, in their order. -/
theorem Sound.rest_eq (h : table.Sound) : table.rest = table.aheadKeys := by
  rw [rest, (returnedKeys_steps table.count table).1,
    List.take_of_length_le h.length_aheadKeys_le]

/-- Then it has come to its end. -/
theorem Sound.next_afterAll_steps (h : table.Sound) :
    (table.afterAll (steps table.count)).next.1 = none := by
  rw [← aheadKeys_eq_nil_iff, (returnedKeys_steps table.count table).2]
  exact List.drop_eq_nil_of_le h.length_aheadKeys_le

/-! ## Records that are added to a bucket -/

section Place

variable {buckets : Array (List Record)} {walk : Position} {record : Record}

/-- A record that is added to a bucket that the walk has left is not seen. -/
theorem ahead_place_of_lt (hlt : bucketOf record.key buckets.size < walk.bucket) :
    ahead (place buckets record) walk = ahead buckets walk := by
  have hdrop : (place buckets record).toList.drop (walk.bucket + 1) =
      buckets.toList.drop (walk.bucket + 1) := by
    rw [place, Array.toList_modify, List.drop_modify_of_lt _ _ _ _ (Nat.lt_succ_of_lt hlt)]
  have hbucket : bucket (place buckets record) walk.bucket = bucket buckets walk.bucket := by
    rw [bucket, place, Array.getElem?_modify, if_neg (Nat.ne_of_lt hlt), ← bucket]
  rw [ahead, ahead, hbucket, behind, hdrop, behind]

/-- A record that is added to a bucket that the walk has still to come to is one more ahead. -/
theorem ahead_place_of_gt (hsize : 0 < buckets.size)
    (hgt : walk.bucket < bucketOf record.key buckets.size) :
    ∃ front back, ahead buckets walk = front ++ back ∧
      ahead (place buckets record) walk = front ++ record :: back := by
  obtain ⟨further, hfurther⟩ := Nat.exists_eq_add_of_lt hgt
  have hlt := bucketOf_lt record.key hsize
  have hbucket : bucket (place buckets record) walk.bucket = bucket buckets walk.bucket := by
    rw [bucket, place, Array.getElem?_modify, if_neg (Nat.ne_of_gt hgt), ← bucket]
  have hindex : bucketOf record.key buckets.size - (walk.bucket + 1) = further := by omega
  have hlong : further < (buckets.toList.drop (walk.bucket + 1)).length := by
    rw [List.length_drop, Array.length_toList]
    omega
  have hdrop : (place buckets record).toList.drop (walk.bucket + 1) =
      (buckets.toList.drop (walk.bucket + 1)).modify further (record :: ·) := by
    rw [place, Array.toList_modify, List.drop_modify_of_ge _ _ _ _ (Nat.succ_le_of_lt hgt), hindex]
  refine ⟨(bucket buckets walk.bucket).drop walk.depth ++
      ((buckets.toList.drop (walk.bucket + 1)).take further).flatten,
    ((buckets.toList.drop (walk.bucket + 1)).drop further).flatten, ?_, ?_⟩
  · rw [ahead, behind, List.append_assoc, ← List.flatten_append, List.take_append_drop]
  · rw [ahead, hbucket, behind, hdrop, List.modify_eq_take_cons_drop hlong,
      List.drop_eq_getElem_cons hlong, List.flatten_append, List.flatten_cons, List.flatten_cons,
      List.append_assoc, List.cons_append]

/-- A record that is added to the bucket that the walk is in takes the place of the one that
the walk has passed last, which is ahead again.  If none was passed, it is itself ahead. -/
theorem ahead_place_of_eq (hsize : 0 < buckets.size)
    (heq : bucketOf record.key buckets.size = walk.bucket) :
    ahead (place buckets record) walk =
      if walk.depth = 0 then record :: ahead buckets walk
      else (bucket buckets walk.bucket)[walk.depth - 1]?.toList ++ ahead buckets walk := by
  have hlt := bucketOf_lt record.key hsize
  have hbucket : bucket (place buckets record) walk.bucket =
      record :: bucket buckets walk.bucket := by
    rw [place, bucket_modify _ _ hlt, if_pos heq, heq]
  have hbehind : behind (place buckets record) walk.bucket = behind buckets walk.bucket := by
    rw [behind, place, Array.toList_modify,
      List.drop_modify_of_lt _ _ _ _ (Nat.lt_succ_of_le (Nat.le_of_eq heq)), behind]
  rw [ahead, hbucket, hbehind, ahead]
  cases hdepth : walk.depth with
  | zero => rfl
  | succ depth =>
    rw [List.drop_succ_cons, if_neg (Nat.succ_ne_zero depth), Nat.add_sub_cancel,
      ← List.append_assoc]
    congr 1
    by_cases hthere : depth < (bucket buckets walk.bucket).length
    · rw [List.getElem?_eq_getElem hthere, List.drop_eq_getElem_cons hthere]
      rfl
    · have hle := Nat.le_of_not_lt hthere
      rw [List.getElem?_eq_none hle, List.drop_eq_nil_of_le hle,
        List.drop_eq_nil_of_le (Nat.le_succ_of_le hle)]
      rfl

end Place

/-! ## Doubled buckets -/

/-- The bucket of a key among half as many. -/
theorem bucketOf_half (key : Bytes) (bucketCount : Nat) :
    bucketOf key bucketCount = bucketOf key (2 * bucketCount) % bucketCount :=
  (Nat.mod_mod_of_dvd _ (Nat.dvd_mul_left _ _)).symm

/-- No key gets lost when a record is added. -/
theorem Sound.mem_contents_link (h : table.Sound) (record : Record) {key : Bytes}
    (hkey : key ∈ table.contents) : key ∈ (table.link record).contents := by
  obtain ⟨other, hother, rfl⟩ := mem_contents_iff.mp hkey
  refine mem_contents_iff.mpr ⟨other, ?_, rfl⟩
  exact (perm_link h.size_pos record).mem_iff.mpr (List.mem_cons_of_mem _ hother)

/-- What is ahead are the keys of later buckets, and those of the walk's own from its depth
on. -/
theorem Sound.mem_aheadKeys_iff (h : table.Sound) {key : Bytes} :
    key ∈ table.aheadKeys ↔ key ∈ table.contents ∧
      (table.walk.bucket < bucketOf key table.bucketCount ∨
        key ∈ ((table.chain table.walk.bucket).map Record.key).drop table.walk.depth) := by
  rw [aheadKeys, ahead, List.map_append, List.mem_append, List.map_drop]
  constructor
  · rintro (hown | hlater)
    · have hthere : key ∈ table.aheadKeys := by
        rw [aheadKeys, ahead, List.map_append, List.map_drop]
        exact List.mem_append_left _ hown
      exact ⟨mem_contents_of_mem_aheadKeys hthere, .inr hown⟩
    · obtain ⟨record, hrecord, rfl⟩ := List.mem_map.mp hlater
      obtain ⟨number, hlt, hbucket⟩ := exists_of_mem_behind hrecord
      refine ⟨mem_contents_iff.mpr ⟨record, mem_flatten_iff.mpr ⟨number, hbucket⟩, rfl⟩, .inl ?_⟩
      rw [bucketCount_eq, h.placed number record hbucket]
      exact hlt
  · rintro ⟨hmem, hlater | hown⟩
    · obtain ⟨record, hrecord, rfl⟩ := mem_contents_iff.mp hmem
      obtain ⟨number, hbucket⟩ := mem_flatten_iff.mp hrecord
      rw [bucketCount_eq, h.placed number record hbucket] at hlater
      refine .inr (List.mem_map_of_mem ?_)
      rw [behind, List.mem_flatten]
      have hlt := lt_size_of_mem_bucket hbucket
      refine ⟨bucket table.buckets number, ?_, hbucket⟩
      rw [bucket_eq_getElem hlt, List.mem_drop_iff_getElem]
      have hsum : table.walk.bucket + 1 + (number - (table.walk.bucket + 1)) = number := by omega
      refine ⟨number - (table.walk.bucket + 1), ?_, ?_⟩
      · rw [Array.length_toList]
        omega
      · simp only [hsum, Array.getElem_toList]
    · exact .inl hown

/-- A key of the walk's own bucket that is not ahead stands in front of the walk. -/
theorem Sound.mem_take_of_notMem_aheadKeys (h : table.Sound) {key : Bytes}
    (hkey : key ∈ table.contents) (hnot : key ∉ table.aheadKeys)
    (hbucket : bucketOf key table.bucketCount = table.walk.bucket) :
    key ∈ ((table.chain table.walk.bucket).map Record.key).take table.walk.depth := by
  obtain ⟨record, hrecord, rfl⟩ := mem_contents_iff.mp hkey
  obtain ⟨number, hthere⟩ := mem_flatten_iff.mp hrecord
  have hnumber : number = table.walk.bucket := (h.placed number record hthere).symm.trans hbucket
  subst hnumber
  have hchain : record.key ∈ (table.chain table.walk.bucket).map Record.key :=
    List.mem_map_of_mem hthere
  rw [← List.take_append_drop table.walk.depth ((table.chain table.walk.bucket).map Record.key),
    List.mem_append] at hchain
  rcases hchain with htaken | hdropped
  · exact htaken
  · exact absurd (h.mem_aheadKeys_iff.mpr ⟨hkey, .inr hdropped⟩) hnot

/-- When an added record makes the buckets double, each of them takes over the keys of an old
bucket that belong to it, the added one in front, and turns them round. -/
theorem InLine.chain_doubled {lineup : Lineup} (h : InLine lineup table) (hsound : table.Sound)
    (record : Record) (hfull : table.bucketCount ≤ table.count + 1) (number : Nat) :
    ((table.link record).chain number).map Record.key =
      ((record.key :: (table.chain (number % table.bucketCount)).map Record.key).filter
        (bucketOf · (2 * table.bucketCount) = number)).reverse := by
  have hlength := h.length_keys hsound
  have hlinked := h.link hsound record
  rw [Lineup.refill_of_le (by rw [List.length_cons, hlength, ← h.size]; exact hfull)] at hlinked
  have hchain := hlinked.linedUp number
  have hold : (table.chain (number % table.bucketCount)).map Record.key =
      lineup.keys.filter (bucketOf · table.bucketCount = number % table.bucketCount) :=
    h.linedUp (number % table.bucketCount)
  rw [← bucketCount_eq, bucketCount_link, if_pos hfull, List.filter_reverse] at hchain
  rw [hold]
  refine hchain.trans (congrArg List.reverse ?_)
  rw [List.filter_cons, List.filter_cons, List.filter_filter]
  have hsame : lineup.keys.filter (bucketOf · (2 * table.bucketCount) = number) =
      lineup.keys.filter fun key => decide (bucketOf key (2 * table.bucketCount) = number) &&
        decide (bucketOf key table.bucketCount = number % table.bucketCount) := by
    refine List.filter_congr fun key _ => ?_
    by_cases hkey : bucketOf key (2 * table.bucketCount) = number
    · have hmod := bucketOf_half key table.bucketCount
      rw [hkey] at hmod
      rw [decide_eq_true hkey, decide_eq_true hmod]
      rfl
    · rw [decide_eq_false hkey]
      rfl
  rw [hsame]

/-! ## What becomes of the rest -/

/-- The key that an action adds, if the table does not have it. -/
def Action.adds? : Action → Option Bytes
  | .call (.insert key _) | .call (.store key _) | .call (.reserve key _) => some key
  | _ => none

/-- A key that is absent is added by linking a record for it. -/
theorem Sound.after_of_adds (h : table.Sound) {action : Action} {key : Bytes}
    (hadds : action.adds? = some key) (habsent : key ∉ table.contents) :
    ∃ content, table.after action = table.link (Record.make key content) := by
  have hnone := (h.locate?_eq_none_iff_notMem key).mpr habsent
  have hinsert : ∀ content, (table.insert key content).2 = table.link (Record.make key content) := by
    intro content
    rw [MemoryTable.insert, hnone]
  unfold Action.adds? at hadds
  split at hadds
  · next content =>
    cases hadds
    exact ⟨content, hinsert content⟩
  · next content =>
    cases hadds
    refine ⟨content, ?_⟩
    show (table.store key content).2 = _
    rw [MemoryTable.store, hnone]
  · next length =>
    cases hadds
    exact ⟨.zeroed length, hinsert (.zeroed length)⟩
  · cases hadds

/-- What a key that is added makes of the rest of a walk, while there are as many buckets as
before. -/
structure Shifted (table later : MemoryTable) (key : Bytes) : Prop where
  /-- In a bucket that the walk has left, the key is not returned. -/
  passed : bucketOf key table.bucketCount < table.walk.bucket → later.rest = table.rest
  /-- In a bucket that the walk has still to come to, it is returned in its turn. -/
  between : table.walk.bucket < bucketOf key table.bucketCount →
    ∃ front back, table.rest = front ++ back ∧ later.rest = front ++ key :: back
  /-- In the bucket that the walk is in, the key comes next if none has been returned from
  there, and else the one that was returned last comes again. -/
  within : bucketOf key table.bucketCount = table.walk.bucket →
    later.rest =
      if table.walk.depth = 0 then key :: table.rest
      else ((table.chain table.walk.bucket)[table.walk.depth - 1]?.map Record.key).toList ++
        table.rest

/-- What a key that is added makes of the rest of a walk when it makes the buckets double. -/
structure Reshuffled (table later : MemoryTable) (key : Bytes) : Prop where
  /-- There are twice as many buckets. -/
  doubled : later.bucketCount = 2 * table.bucketCount
  /-- The keys of later buckets are returned, whether they were before or not, and those of the
  walk's own bucket but for as many as had been returned from there.  That bucket now has the
  keys in reverse that belong to it. -/
  mem_iff : ∀ other, other ∈ later.rest ↔ other ∈ later.contents ∧
    (table.walk.bucket < bucketOf other later.bucketCount ∨
      other ∈ (((key :: (table.chain (table.walk.bucket % table.bucketCount)).map
        Record.key).filter (bucketOf · later.bucketCount = table.walk.bucket)).reverse).drop
          table.walk.depth)
  /-- So only keys of the walk's own bucket are missed, -/
  missed : ∀ other ∈ table.rest, other ∉ later.rest →
    bucketOf other table.bucketCount = table.walk.bucket ∧
      bucketOf other later.bucketCount = table.walk.bucket
  /-- and no more than had been returned from there. -/
  few : (table.rest.filter (· ∉ later.rest)).length ≤ table.walk.depth

/-- What a key that is added makes of the rest of a walk. -/
structure GoesOn (table later : MemoryTable) (key : Bytes) : Prop where
  /-- From now on no key is returned twice, -/
  once : later.rest.Nodup
  /-- and none that is not there. -/
  present : ∀ other ∈ later.rest, other ∈ later.contents
  /-- The walk comes to its end. -/
  ends : (later.afterAll (steps later.count)).next.1 = none
  /-- As long as there is room, -/
  shifted : table.count + 1 < table.bucketCount →
    later.bucketCount = table.bucketCount ∧ Shifted table later key
  /-- and when there is not. -/
  reshuffled : table.bucketCount ≤ table.count + 1 → Reshuffled table later key

section Link

variable (h : table.Sound) {record : Record}
include h

theorem Sound.shifted_link (hlater : (table.link record).Sound)
    (hroom : table.count + 1 < table.bucketCount) :
    Shifted table (table.link record) record.key := by
  have hahead : (table.link record).aheadKeys =
      (ahead (place table.buckets record) table.walk).map Record.key := by
    rw [link_of_room hroom]
    rfl
  have hrest := h.rest_eq
  have hthen := hlater.rest_eq
  rw [hahead] at hthen
  rw [aheadKeys] at hrest
  refine ⟨?_, ?_, ?_⟩
  · intro hpassed
    rw [hrest, hthen, ahead_place_of_lt hpassed]
  · intro hbetween
    obtain ⟨front, back, hbefore, hafter⟩ := ahead_place_of_gt h.size_pos hbetween
    refine ⟨front.map Record.key, back.map Record.key, ?_, ?_⟩
    · rw [hrest, hbefore, List.map_append]
    · rw [hthen, hafter, List.map_append, List.map_cons]
  · intro hwithin
    rw [hrest, hthen, ahead_place_of_eq h.size_pos hwithin, apply_ite (List.map Record.key),
      List.map_cons, List.map_append, ← Option.toList_map]
    rfl

/-- A key that is not ahead any more when the buckets have been doubled was in the bucket that
the walk is in, and is there still. -/
theorem Sound.bucketOf_of_missed (hlater : (table.link record).Sound)
    (hdouble : (table.link record).bucketCount = 2 * table.bucketCount) {other : Bytes}
    (hother : other ∈ table.aheadKeys) (hmissed : other ∉ (table.link record).aheadKeys) :
    bucketOf other table.bucketCount = table.walk.bucket ∧
      bucketOf other (table.link record).bucketCount = table.walk.bucket := by
  have hmem := h.mem_contents_link record (mem_contents_of_mem_aheadKeys hother)
  have hle : table.walk.bucket ≤ bucketOf other table.bucketCount := by
    obtain ⟨before, hbefore, rfl⟩ := List.mem_map.mp hother
    exact h.placed.le_bucketOf_of_mem_ahead hbefore
  have hnot : ¬ table.walk.bucket < bucketOf other (table.link record).bucketCount := by
    intro hlt
    refine hmissed (hlater.mem_aheadKeys_iff.mpr ⟨hmem, .inl ?_⟩)
    rw [walk_link]
    exact hlt
  have hgrown : bucketOf other table.bucketCount ≤
      bucketOf other (table.link record).bucketCount := by
    rw [hdouble, bucketOf_half]
    exact Nat.mod_le _ _
  omega

theorem Sound.reshuffled_link {lineup : Lineup} (hline : InLine lineup table)
    (hlater : (table.link record).Sound) (hfull : table.bucketCount ≤ table.count + 1) :
    Reshuffled table (table.link record) record.key := by
  have hdouble : (table.link record).bucketCount = 2 * table.bucketCount := by
    rw [bucketCount_link, if_pos hfull]
  have hmem : ∀ other, other ∈ (table.link record).rest ↔
      other ∈ (table.link record).contents ∧
        (table.walk.bucket < bucketOf other (table.link record).bucketCount ∨
          other ∈ (((table.link record).chain table.walk.bucket).map Record.key).drop
            table.walk.depth) := by
    intro other
    rw [hlater.rest_eq, hlater.mem_aheadKeys_iff, walk_link]
  have hmissed : ∀ other ∈ table.rest, other ∉ (table.link record).rest →
      bucketOf other table.bucketCount = table.walk.bucket ∧
        bucketOf other (table.link record).bucketCount = table.walk.bucket := by
    intro other hother hnot
    rw [h.rest_eq] at hother
    rw [hlater.rest_eq] at hnot
    exact h.bucketOf_of_missed hlater hdouble hother hnot
  refine ⟨hdouble, ?_, hmissed, ?_⟩
  · intro other
    rw [hmem, hline.chain_doubled h record hfull, hdouble]
  · -- whatever is missed stands in front of the walk in its bucket
    have hnodup : (table.rest.filter (· ∉ (table.link record).rest)).Nodup := by
      rw [h.rest_eq]
      exact h.nodup_aheadKeys.filter _
    have hsubset : table.rest.filter (· ∉ (table.link record).rest) ⊆
        (((table.link record).chain table.walk.bucket).map Record.key).take table.walk.depth := by
      intro other hfilter
      obtain ⟨hother, hnot⟩ := List.mem_filter.mp hfilter
      have hnot' : other ∉ (table.link record).rest := by simpa using hnot
      obtain ⟨-, hplace⟩ := hmissed other hother hnot'
      rw [h.rest_eq] at hother
      rw [hlater.rest_eq] at hnot'
      have htaken := hlater.mem_take_of_notMem_aheadKeys
        (h.mem_contents_link record (mem_contents_of_mem_aheadKeys hother)) hnot'
      rw [walk_link] at htaken
      exact htaken hplace
    have hle := (List.subperm_of_subset hnodup hsubset).length_le
    rw [List.length_take] at hle
    omega

end Link

/-- What an added key makes of the rest of a walk, whatever was done with the table before:
without a doubling nothing that the walk has still to return is missed, and at most one record
is returned again; a doubling may make it miss as many as it has returned from its bucket. -/
theorem rest_of_added (wish : Nat) (history : List Action) {action : Action} {key : Bytes}
    (hadds : action.adds? = some key)
    (habsent : key ∉ ((withBuckets wish).afterAll history).contents) :
    GoesOn ((withBuckets wish).afterAll history)
      (((withBuckets wish).afterAll history).after action) key := by
  have hsound := (sound_withBuckets wish).afterAll history
  have hline := (InLine.new wish).afterAll (sound_withBuckets wish) history
  have hlater := hsound.after action
  obtain ⟨content, hlink⟩ := hsound.after_of_adds hadds habsent
  rw [hlink] at hlater ⊢
  refine ⟨?_, ?_, hlater.next_afterAll_steps, ?_, ?_⟩
  · rw [hlater.rest_eq]
    exact hlater.nodup_aheadKeys
  · intro other hother
    rw [hlater.rest_eq] at hother
    exact mem_contents_of_mem_aheadKeys hother
  · intro hroom
    refine ⟨?_, ?_⟩
    · rw [bucketCount_link, if_neg (Nat.not_le_of_lt hroom)]
    · have hshifted := hsound.shifted_link hlater hroom
      rwa [Record.key_make] at hshifted
  · intro hfull
    have hreshuffled := hsound.reshuffled_link hline hlater hfull
    rwa [Record.key_make] at hreshuffled

/-- One record, and a walk that has returned it. -/
def oneReturned : List Action := [.call (.insert [0x61] (.given [0x78])), .call .first]

/-- Three records, two of them in the bucket of the one that a walk has returned. -/
def oneOfThreeReturned : List Action :=
  [.call (.insert [0x62] (.given [0x31])), .call (.insert [0x69] (.given [0x32])),
    .call (.insert [0x78] (.given [0x33])), .call .first]

/-- A record is added. -/
def oneMore : Action := .call (.insert [0x63] (.given [0x79]))

/-- The added record comes to the bucket that the walk is in, and is not returned. -/
theorem rest_of_added_to_own_bucket :
    oneMore.adds? = some [0x63] ∧ [0x63] ∉ ((withBuckets 4).afterAll oneReturned).contents ∧
      bucketOf [0x63] 4 = ((withBuckets 4).afterAll oneReturned).walk.bucket ∧
      GoesOn ((withBuckets 4).afterAll oneReturned)
        (((withBuckets 4).afterAll oneReturned).after oneMore) [0x63] := by
  have habsent : [0x63] ∉ ((withBuckets 4).afterAll oneReturned).contents := by decide +kernel
  exact ⟨rfl, habsent, by decide +kernel, rest_of_added 4 oneReturned rfl habsent⟩

/-- The record that was returned is returned again.  And where a record makes the buckets
double, one that was to come is missed. -/
theorem walk_disturbed :
    ((withBuckets 4).returnedKeys oneReturned = [[0x61]] ∧
      (((withBuckets 4).afterAll oneReturned).after oneMore).rest = [[0x61]]) ∧
    ((withBuckets 4).returnedKeys oneOfThreeReturned = [[0x69]] ∧
      ((withBuckets 4).afterAll oneOfThreeReturned).rest = [[0x62], [0x78]] ∧
      (((withBuckets 4).afterAll oneOfThreeReturned).after oneMore).rest =
        [[0x69], [0x78], [0x63]]) := by
  decide +kernel

end MemoryTable
end KeyTable
