import KeyTable.Proofs.MemoryTable.Actions

/-!
# Walks while the table changes

A walk may be interrupted as often as a caller likes.  As long as no key is added and the
walk is not started anew, whatever is done in between only takes records away from those
that it has still to visit, and takes away only those that are removed.
-/

namespace KeyTable
namespace MemoryTable

/-! ## Removing a record -/

/-- Dropping a key from records that lack it. -/
theorem filter_key_eq_self {records : List Record} {key : Bytes}
    (h : key ∉ records.map Record.key) : records.filter (·.key ≠ key) = records := by
  rw [List.filter_eq_self]
  intro record hrecord
  have hne : record.key ≠ key := by
    intro hkey
    exact h (hkey ▸ List.mem_map_of_mem hrecord)
  simpa using hne

section Bucket

variable {records : List Record} (hnodup : (records.map Record.key).Nodup) {depth : Nat}
  {record : Record} (hat : records[depth]? = some record)
include hnodup hat

/-- Where the keys differ, to remove the record at a depth is to drop its key. -/
theorem eraseIdx_eq_filter : records.eraseIdx depth = records.filter (·.key ≠ record.key) := by
  obtain ⟨hsplit, -, herase⟩ := split_at_getElem? hat
  rw [hsplit, List.map_append, List.map_cons, List.nodup_middle, List.nodup_cons,
    List.mem_append, not_or] at hnodup
  obtain ⟨⟨hfront, hback⟩, -⟩ := hnodup
  conv_rhs => rw [hsplit]
  rw [herase, List.filter_append, List.filter_cons_of_neg (by simp), filter_key_eq_self hfront,
    filter_key_eq_self hback]

/-- A walk through the records that steps back if it has passed the one that is dropped has
the same records before it, but for that one. -/
theorem drop_filter_key (passed : Nat) :
    (records.filter (·.key ≠ record.key)).drop (if depth < passed then passed - 1 else passed) =
      (records.drop passed).filter (·.key ≠ record.key) := by
  obtain ⟨hlt, -⟩ := List.getElem?_eq_some_iff.mp hat
  have hboth := List.take_append_drop passed records
  have hkeys := hnodup
  rw [← hboth, List.map_append, List.nodup_append] at hkeys
  obtain ⟨-, -, hapart⟩ := hkeys
  split
  · next hpassed =>
    -- the record has been passed, so none of those before the walk has its key
    have htaken : record ∈ records.take passed := by
      refine List.mem_of_getElem? (i := depth) ?_
      rw [List.getElem?_take_of_lt hpassed, hat]
    have hleft : record.key ∉ (records.drop passed).map Record.key := fun hmem =>
      hapart record.key (List.mem_map_of_mem htaken) record.key hmem rfl
    have hshort : (records.take depth).length = depth := by
      rw [List.length_take]
      omega
    have hgone : (records.take depth).drop (passed - 1) = [] :=
      List.drop_eq_nil_of_le (by omega)
    have hstep : depth + 1 + (passed - 1 - depth) = passed := by omega
    rw [filter_key_eq_self hleft, ← eraseIdx_eq_filter hnodup hat,
      List.eraseIdx_eq_take_drop_succ, List.drop_append, hgone, hshort, List.nil_append,
      List.drop_drop, hstep]
  · next hpassed =>
    have hahead : record ∈ records.drop passed := by
      refine List.mem_of_getElem? (i := depth - passed) ?_
      rw [List.getElem?_drop, Nat.add_sub_cancel' (Nat.le_of_not_lt hpassed), hat]
    have hfront : record.key ∉ (records.take passed).map Record.key := fun hmem =>
      hapart record.key hmem record.key (List.mem_map_of_mem hahead) rfl
    have hlength : (records.take passed).length = passed := by
      rw [List.length_take]
      omega
    conv_lhs => rw [← hboth]
    rw [List.filter_append, filter_key_eq_self hfront, List.drop_left' hlength]

end Bucket

variable {table : MemoryTable}

theorem Sound.nodup_bucket (h : table.Sound) (number : Nat) :
    ((bucket table.buckets number).map Record.key).Nodup := by
  by_cases hlt : number < table.buckets.size
  · have hsub : (bucket table.buckets number).Sublist table.records := by
      rw [records, flatten_eq hlt, List.append_assoc]
      exact (List.sublist_append_left _ _).trans (List.sublist_append_right _ _)
    exact h.nodup.sublist (hsub.map Record.key)
  · rw [bucket_eq_nil (Nat.le_of_not_lt hlt)]
    exact List.nodup_nil

section Unlink

variable {position : Position} {record : Record}

/-- No other bucket has a record with the key of a record. -/
theorem Sound.filter_bucket_of_ne (h : table.Sound)
    (hat : table.recordAt? position = some record) {number : Nat} (hne : position.bucket ≠ number) :
    (bucket table.buckets number).filter (·.key ≠ record.key) = bucket table.buckets number := by
  rw [List.filter_eq_self]
  intro other hother
  have hplace := h.placed number other hother
  have hhome := h.placed position.bucket record (List.mem_of_getElem? (recordAt?_eq _ _ ▸ hat))
  have hkey : other.key ≠ record.key := by
    intro hkey
    rw [hkey] at hplace
    exact hne (hhome.symm.trans hplace)
  simpa using hkey

/-- To remove a record is to drop its key from all buckets. -/
theorem Sound.toList_unlink (h : table.Sound) (hat : table.recordAt? position = some record) :
    (table.unlink position).buckets.toList =
      table.buckets.toList.map (·.filter (·.key ≠ record.key)) := by
  refine List.ext_getElem? ?_
  intro number
  have hmodify : (table.unlink position).buckets =
      table.buckets.modify position.bucket (·.eraseIdx position.depth) := rfl
  rw [hmodify, Array.getElem?_toList, List.getElem?_map, Array.getElem?_toList,
    Array.getElem?_modify]
  cases hchain : table.buckets[number]? with
  | none => simp
  | some chain =>
    have hbucket : bucket table.buckets number = chain := by rw [bucket, hchain, Option.getD_some]
    by_cases hsame : position.bucket = number
    · have herase := eraseIdx_eq_filter (h.nodup_bucket position.bucket) (recordAt?_eq _ _ ▸ hat)
      rw [hsame, hbucket] at herase
      rw [if_pos hsame, Option.map_some, Option.map_some, herase]
    · have hother := h.filter_bucket_of_ne hat hsame
      rw [hbucket] at hother
      rw [if_neg hsame, Option.map_some, hother]

/-- If all buckets are changed alike, so are the one that a walk is in and those behind it. -/
theorem bucket_behind_of_map {buckets others : Array (List Record)}
    {change : List Record → List Record} (h : others.toList = buckets.toList.map change)
    (hnil : change [] = []) (number : Nat) :
    bucket others number = change (bucket buckets number) ∧
      behind others number = ((buckets.toList.drop (number + 1)).map change).flatten := by
  refine ⟨?_, by rw [behind, h, List.map_drop]⟩
  rw [bucket, bucket, ← Array.getElem?_toList, ← Array.getElem?_toList, h, List.getElem?_map]
  cases buckets.toList[number]? with
  | none => exact hnil.symm
  | some chain => rfl

/-- Removing a record takes it away from those that a walk has still to visit, and nothing
else. -/
theorem Sound.ahead_unlink (h : table.Sound) (hat : table.recordAt? position = some record) :
    ahead (table.unlink position).buckets (table.unlink position).walk =
      (ahead table.buckets table.walk).filter (·.key ≠ record.key) := by
  have hlist := h.toList_unlink hat
  have hbucket : (table.unlink position).walk.bucket = table.walk.bucket := by
    rw [MemoryTable.unlink]
    split <;> rfl
  obtain ⟨hthere, hbehind⟩ := bucket_behind_of_map hlist List.filter_nil table.walk.bucket
  rw [ahead, hbucket, hthere, hbehind, ahead, List.filter_append, behind, List.filter_flatten]
  congr 1
  by_cases hsame : table.walk.bucket = position.bucket
  · have hdepth : (table.unlink position).walk.depth =
        if position.depth < table.walk.depth then table.walk.depth - 1 else table.walk.depth := by
      rw [MemoryTable.unlink]
      simp only [hsame, true_and]
      split <;> rfl
    rw [hdepth, hsame]
    exact drop_filter_key (h.nodup_bucket _) (recordAt?_eq _ _ ▸ hat) table.walk.depth
  · have hdepth : (table.unlink position).walk.depth = table.walk.depth := by
      rw [MemoryTable.unlink]
      simp only [hsame, false_and, if_false]
    have hother := h.filter_bucket_of_ne hat (Ne.symm hsame)
    have hrest : ((bucket table.buckets table.walk.bucket).drop table.walk.depth).filter
        (·.key ≠ record.key) = (bucket table.buckets table.walk.bucket).drop table.walk.depth := by
      rw [List.filter_eq_self] at hother ⊢
      exact fun other hmem => hother other (List.mem_of_mem_drop hmem)
    rw [hdepth, hother, hrest]

end Unlink

/-! ## Changing a record -/

/-- The keys that a walk has still to visit, from the keys in the buckets. -/
theorem keys_ahead (buckets : Array (List Record)) (walk : Position) :
    (ahead buckets walk).map Record.key =
      ((buckets.toList.map (·.map Record.key))[walk.bucket]?.getD []).drop walk.depth ++
        ((buckets.toList.map (·.map Record.key)).drop (walk.bucket + 1)).flatten := by
  rw [ahead, List.map_append, List.map_drop, behind, List.map_flatten, List.map_drop, bucket,
    List.getElem?_map, Array.getElem?_toList]
  cases buckets[walk.bucket]? <;> rfl

/-- Changing a record that keeps its key leaves the keys in the buckets. -/
theorem keys_modifyAt {position : Position} {record : Record}
    (hat : table.recordAt? position = some record) {change : Record → Record}
    (hkey : (change record).key = record.key) :
    (table.modifyAt position change).buckets.toList.map (·.map Record.key) =
      table.buckets.toList.map (·.map Record.key) := by
  refine List.ext_getElem? ?_
  intro number
  have hmodify : (table.modifyAt position change).buckets =
      table.buckets.modify position.bucket (·.modify position.depth change) := rfl
  rw [hmodify, List.getElem?_map, List.getElem?_map, Array.getElem?_toList, Array.getElem?_toList,
    Array.getElem?_modify]
  split
  · next hsame =>
    cases hchain : table.buckets[number]? with
    | none => rfl
    | some chain =>
      have hbucket : bucket table.buckets number = chain := by
        rw [bucket, hchain, Option.getD_some]
      rw [recordAt?_eq, hsame, hbucket] at hat
      obtain ⟨hsplit, hchange, -⟩ := split_at_getElem? hat
      rw [Option.map_some, Option.map_some, Option.map_some, hchange]
      conv_rhs => rw [hsplit]
      rw [List.map_append, List.map_append, List.map_cons, List.map_cons, hkey]
  · rfl

/-- So it leaves the keys that a walk has still to visit. -/
theorem keys_ahead_modifyAt {position : Position} {record : Record}
    (hat : table.recordAt? position = some record) {change : Record → Record}
    (hkey : (change record).key = record.key) (walk : Position) :
    (ahead (table.modifyAt position change).buckets walk).map Record.key =
      (ahead table.buckets walk).map Record.key := by
  rw [keys_ahead, keys_ahead, keys_modifyAt hat hkey]

/-! ## Actions that add nothing -/

/-- The keys that the walk of a table has still to visit. -/
def aheadKeys (table : MemoryTable) : List Bytes :=
  (ahead table.buckets table.walk).map Record.key

/-- Is an action one that adds no key, and does not start the walk anew? -/
def Action.IsCalm (table : MemoryTable) : Action → Prop
  | .call (.insert key _) | .call (.store key _) | .call (.reserve key _) => key ∈ table.contents
  | .call .first => False
  | _ => True

/-- Are all of these actions such, each on the table that those in front of it leave? -/
def Calm : MemoryTable → List Action → Prop
  | _, [] => True
  | table, action :: actions => action.IsCalm table ∧ Calm (table.after action) actions

instance decidableIsCalm (table : MemoryTable) :
    (action : Action) → Decidable (action.IsCalm table)
  | .call (.insert key _) | .call (.store key _) | .call (.reserve key _) =>
    inferInstanceAs (Decidable (key ∈ table.contents))
  | .call .first => .isFalse id
  | .call (.delete _) | .call (.fetch _) | .call (.edit _ _) | .call (.get _)
  | .call (.contains _) | .call .next | .call .count | .scan _ => .isTrue trivial

instance decidableCalm : (table : MemoryTable) → (actions : List Action) →
    Decidable (Calm table actions)
  | _, [] => .isTrue trivial
  | table, action :: actions =>
    have := decidableCalm (table.after action) actions
    inferInstanceAs (Decidable (action.IsCalm table ∧ Calm (table.after action) actions))

/-- The record that a step of a walk has come to, if it was one. -/
def Response.step? : Response → Option Entry
  | .reply (.step entry) => entry
  | _ => none

/-- The records that the steps of a walk have come to, in order. -/
def returned (table : MemoryTable) : List Action → List Entry
  | [] => []
  | action :: actions => (table.act action).1.step?.toList ++ (table.after action).returned actions

/-- How an action that adds nothing takes a walk along. -/
structure TakesAlong (table : MemoryTable) (action : Action) : Prop where
  /-- What the action returns are the first keys ahead, and the keys that are ahead then are
  some of the others, in their order. -/
  ordered : ∃ others, table.aheadKeys =
      (table.act action).1.step?.toList.map Entry.key ++ others ∧
    (table.after action).aheadKeys.Sublist others ∧
    ∀ key ∈ others, key ∈ (table.after action).contents → key ∈ (table.after action).aheadKeys
  /-- No key is added. -/
  kept : ∀ key ∈ (table.after action).contents, key ∈ table.contents

section Same

variable {action : Action} (hstep : (table.act action).1.step? = none)
  (hkeys : (table.after action).aheadKeys = table.aheadKeys)
include hstep hkeys

/-- An action that leaves the keys ahead takes the walk along. -/
theorem takesAlong_of_keys (hkept : ∀ key ∈ (table.after action).contents, key ∈ table.contents) :
    table.TakesAlong action := by
  refine ⟨⟨table.aheadKeys, by rw [hstep]; rfl, ?_, ?_⟩, hkept⟩
  · rw [hkeys]
  · intro key hkey _
    rw [hkeys]
    exact hkey

end Same

/-- Another value for a key that is there makes no key new. -/
theorem mem_of_mem_insert {contents : Contents} {key other value : Bytes} (h : key ∈ contents)
    (hother : other ∈ contents.insert key value) : other ∈ contents := by
  rcases Finmap.mem_insert.mp hother with rfl | hmem
  · exact h
  · exact hmem

theorem Sound.takesAlong_insert (h : table.Sound) {key : Bytes} (hmem : key ∈ table.contents)
    (content : Content) : table.TakesAlong (.call (.insert key content)) := by
  obtain ⟨position, -, hlocate, -, -⟩ := h.exists_of_mem hmem
  have hinsert : table.insert key content =
      (.error .alreadyExists, { table with cursor := some position }) := by
    rw [MemoryTable.insert, hlocate]
  have hafter : table.after (.call (.insert key content)) =
      { table with cursor := some position } := by
    show (table.insert key content).2 = _
    rw [hinsert]
  refine takesAlong_of_keys rfl (by rw [hafter]; rfl) ?_
  rw [hafter]
  exact fun _ => id

theorem Sound.takesAlong_store (h : table.Sound) {key : Bytes} (hmem : key ∈ table.contents)
    (content : Content) : table.TakesAlong (.call (.store key content)) := by
  have hcontents := (h.store_spec key content).2
  obtain ⟨position, record, hlocate, hat, rfl⟩ := h.exists_of_mem hmem
  refine takesAlong_of_keys rfl ?_ ?_
  · show (table.store record.key content).2.aheadKeys = _
    rw [MemoryTable.store, hlocate]
    exact keys_ahead_modifyAt hat (record.key_assign content) table.walk
  · intro other hother
    have hinserted : other ∈ (table.store record.key content).2.contents := hother
    rw [hcontents] at hinserted
    exact mem_of_mem_insert hmem hinserted

theorem Sound.takesAlong_delete (h : table.Sound) (key : Bytes) :
    table.TakesAlong (.call (.delete key)) := by
  by_cases hmem : key ∈ table.contents
  · have hcontents := (h.delete_of_mem hmem).2
    obtain ⟨position, record, hlocate, hat, rfl⟩ := h.exists_of_mem hmem
    have hahead : (table.after (.call (.delete record.key))).aheadKeys =
        table.aheadKeys.filter (· ≠ record.key) := by
      show (table.delete record.key).2.aheadKeys = _
      rw [MemoryTable.delete, hlocate, aheadKeys]
      show (ahead (table.unlink position).buckets (table.unlink position).walk).map _ = _
      rw [h.ahead_unlink hat, aheadKeys, List.filter_map]
      rfl
    refine ⟨⟨table.aheadKeys, rfl, ?_, ?_⟩, ?_⟩
    · rw [hahead]
      exact List.filter_sublist
    · intro other hother hleft
      have herased : other ∈ (table.delete record.key).2.contents := hleft
      rw [hcontents, Finmap.mem_erase] at herased
      rw [hahead, List.mem_filter]
      exact ⟨hother, by simpa using herased.1⟩
    · intro other hother
      have herased : other ∈ (table.delete record.key).2.contents := hother
      rw [hcontents, Finmap.mem_erase] at herased
      exact herased.2
  · have hafter : table.after (.call (.delete key)) = table := by
      show (table.delete key).2 = table
      rw [h.delete_of_notMem hmem]
    refine takesAlong_of_keys rfl (by rw [hafter]) ?_
    rw [hafter]
    exact fun _ => id

theorem Sound.aheadKeys_patch (h : table.Sound) (key bytes : Bytes) :
    (table.patch key bytes).2.aheadKeys = table.aheadKeys := by
  cases hlocate : table.locate? key with
  | none =>
    rw [MemoryTable.patch, hlocate]
    rfl
  | some position =>
    obtain ⟨record, hat, -⟩ := h.exists_of_locate? hlocate
    have hrecord := h.laidOut record (mem_records_of_recordAt? hat)
    rw [MemoryTable.patch, hlocate]
    exact keys_ahead_modifyAt hat (Record.key_patch hrecord bytes) table.walk

theorem Sound.takesAlong_edit (h : table.Sound) (key : Bytes) (change : Bytes → Bytes) :
    table.TakesAlong (.call (.edit key change)) := by
  have hcontents := (h.edit_spec key change).2.2
  have hfetched := h.fetch key
  refine takesAlong_of_keys rfl ?_ ?_
  · show (table.edit key change).2.aheadKeys = _
    unfold edit
    split
    · next value fetched hsplit =>
      rw [hsplit] at hfetched
      have hkeys : fetched.aheadKeys = table.aheadKeys := by
        rw [← show (table.fetch key).2 = fetched from congrArg Prod.snd hsplit]
        rfl
      exact (hfetched.aheadKeys_patch key (change value)).trans hkeys
    · next fault fetched hsplit =>
      rw [← show (table.fetch key).2 = fetched from congrArg Prod.snd hsplit]
      rfl
  · intro other hother
    have hedited : other ∈ (table.edit key change).2.contents := hother
    rw [hcontents, Contents.after] at hedited
    split at hedited
    · next value hlookup =>
      exact mem_of_mem_insert (Finmap.mem_of_lookup_eq_some hlookup) hedited
    · exact hedited

/-- A step of the walk takes the first key off those that are ahead. -/
theorem aheadKeys_next (table : MemoryTable) :
    (table.after (.call .next)).aheadKeys = table.aheadKeys.tail := by
  obtain ⟨-, htail⟩ := table.next_spec
  show (ahead table.next.2.buckets table.next.2.walk).map _ = _
  rw [table.sameRecords_next.buckets, htail, aheadKeys, List.map_tail]

theorem takesAlong_next (table : MemoryTable) : table.TakesAlong (.call .next) := by
  obtain ⟨hhead, -⟩ := table.next_spec
  have hrest := table.aheadKeys_next
  have hstep : (table.act (.call .next)).1.step? = table.next.1 := rfl
  refine ⟨⟨table.aheadKeys.tail, ?_, by rw [hrest], ?_⟩, fun _ => id⟩
  · rw [hstep, hhead, aheadKeys]
    cases ahead table.buckets table.walk <;> rfl
  · intro key hkey _
    rw [hrest]
    exact hkey

/-- Every action that adds nothing takes the walk along. -/
theorem Sound.takesAlong (h : table.Sound) {action : Action} (hcalm : action.IsCalm table) :
    table.TakesAlong action := by
  cases action with
  | scan count => exact takesAlong_of_keys rfl rfl fun _ => id
  | call call =>
    cases call with
    | insert key content => exact h.takesAlong_insert hcalm content
    | reserve key length =>
      obtain ⟨hordered, hkept⟩ := h.takesAlong_insert hcalm (.zeroed length)
      exact ⟨hordered, hkept⟩
    | store key content => exact h.takesAlong_store hcalm content
    | delete key => exact h.takesAlong_delete key
    | edit key change => exact h.takesAlong_edit key change
    | fetch key => exact takesAlong_of_keys rfl rfl fun _ => id
    | get key => exact takesAlong_of_keys rfl rfl fun _ => id
    | contains key => exact takesAlong_of_keys rfl rfl fun _ => id
    | count => exact takesAlong_of_keys rfl rfl fun _ => id
    | first => exact hcalm.elim
    | next => exact takesAlong_next table

/-! ## Any number of actions -/

/-- The keys that the steps of a walk have come to. -/
def returnedKeys (table : MemoryTable) (actions : List Action) : List Bytes :=
  (table.returned actions).map Entry.key

theorem returnedKeys_cons (table : MemoryTable) (action : Action) (actions : List Action) :
    table.returnedKeys (action :: actions) =
      (table.act action).1.step?.toList.map Entry.key ++
        (table.after action).returnedKeys actions :=
  List.map_append

/-- No key that is ahead of a walk is missing from the table. -/
theorem mem_contents_of_mem_aheadKeys {key : Bytes} (h : key ∈ table.aheadKeys) :
    key ∈ table.contents := by
  obtain ⟨record, hahead, rfl⟩ := List.mem_map.mp h
  exact mem_contents_iff.mpr ⟨record, mem_records_of_mem_ahead hahead, rfl⟩

/-- Actions that add nothing add nothing, however many. -/
theorem Sound.kept_of_calm (h : table.Sound) {actions : List Action} (hcalm : Calm table actions)
    {key : Bytes} (hkey : key ∈ (table.afterAll actions).contents) : key ∈ table.contents := by
  induction actions generalizing table with
  | nil => exact hkey
  | cons action actions ih =>
    exact (h.takesAlong hcalm.1).kept key (ih (h.after action) hcalm.2 hkey)

/-- What is returned, and behind it what is still ahead in the end, was ahead at the beginning,
in this order. -/
theorem Sound.returnedKeys_sublist (h : table.Sound) {actions : List Action}
    (hcalm : Calm table actions) :
    (table.returnedKeys actions ++ (table.afterAll actions).aheadKeys).Sublist
      table.aheadKeys := by
  induction actions generalizing table with
  | nil => exact List.Sublist.refl _
  | cons action actions ih =>
    obtain ⟨⟨others, hahead, hsublist, -⟩, -⟩ := h.takesAlong hcalm.1
    rw [returnedKeys_cons, hahead, List.append_assoc]
    exact ((ih (h.after action) hcalm.2).trans hsublist).append_left _

/-- A key that was ahead at the beginning, and is still there in the end, was returned or is
still ahead. -/
theorem Sound.mem_returnedKeys (h : table.Sound) {actions : List Action}
    (hcalm : Calm table actions) {key : Bytes} (hahead : key ∈ table.aheadKeys)
    (hkey : key ∈ (table.afterAll actions).contents) :
    key ∈ table.returnedKeys actions ∨ key ∈ (table.afterAll actions).aheadKeys := by
  induction actions generalizing table with
  | nil => exact .inr hahead
  | cons action actions ih =>
    obtain ⟨⟨others, hsplit, -, hothers⟩, -⟩ := h.takesAlong hcalm.1
    have hsound := h.after action
    rw [returnedKeys_cons, List.mem_append]
    rw [hsplit, List.mem_append] at hahead
    rcases hahead with hnow | hlater
    · exact .inl (.inl hnow)
    · have hleft := hothers key hlater (hsound.kept_of_calm hcalm.2 hkey)
      rcases ih hsound hcalm.2 hleft hkey with hreturned | hstill
      · exact .inl (.inr hreturned)
      · exact .inr hstill

/-- Is an action a step of the walk? -/
def Action.isNext : Action → Bool
  | .call .next => true
  | _ => false

theorem Action.eq_next_of_isNext {action : Action} (h : action.isNext = true) :
    action = .call .next := by
  unfold isNext at h
  split at h
  · rfl
  · cases h

/-- Every step takes a key off those that are ahead, as long as there is one. -/
theorem Sound.length_aheadKeys_afterAll (h : table.Sound) {actions : List Action}
    (hcalm : Calm table actions) :
    (table.afterAll actions).aheadKeys.length ≤
      table.aheadKeys.length - (actions.filter Action.isNext).length := by
  induction actions generalizing table with
  | nil => exact Nat.le_refl _
  | cons action actions ih =>
    have hrest := ih (h.after action) hcalm.2
    show ((table.after action).afterAll actions).aheadKeys.length ≤ _
    cases hnext : action.isNext with
    | true =>
      obtain rfl := Action.eq_next_of_isNext hnext
      rw [aheadKeys_next, List.length_tail] at hrest
      rw [List.filter_cons_of_pos hnext, List.length_cons]
      omega
    | false =>
      obtain ⟨⟨others, hsplit, hsublist, -⟩, -⟩ := h.takesAlong hcalm.1
      have hle := hsublist.length_le
      have hlength := congrArg List.length hsplit
      rw [List.length_append] at hlength
      rw [List.filter_cons_of_neg (by simp [hnext])]
      omega

/-! ## Walks from the beginning -/

/-- Calm actions in front of others. -/
theorem Calm.later {before later : List Action} (h : Calm table (before ++ later)) :
    Calm (table.afterAll before) later := by
  induction before generalizing table with
  | nil => exact h
  | cons action before ih => exact ih h.2

/-- The records that a walk comes to that is started and then goes on while actions are
taken. -/
def walked (table : MemoryTable) (actions : List Action) : List Entry :=
  table.first.1.toList ++ table.first.2.returned actions

/-- What is promised of a walk that is started and then goes on while actions are taken. -/
structure WalkStable (table : MemoryTable) (actions : List Action) : Prop where
  /-- Records are returned in the order in which a scan lists them at the beginning. -/
  inOrder : ((table.walked actions).map Entry.key).Sublist
    ((table.scan.take table.count).1.map Entry.key)
  /-- No record is returned twice. -/
  once : ((table.walked actions).map Entry.key).Nodup
  /-- A record that is returned is there, with its present value. -/
  present : (∀ entry, table.first.1 = some entry → table.contents.Binds entry) ∧
    ∀ before later entry, actions = before ++ .call .next :: later →
      (table.first.2.afterAll before).next.1 = some entry →
        (table.first.2.afterAll before).contents.Binds entry
  /-- So no record is returned after it was removed. -/
  gone : ∀ before key later, actions = before ++ .call (.delete key) :: later →
    key ∉ (table.first.2.afterAll (before ++ [.call (.delete key)])).returnedKeys later
  /-- When the walk has come to its end, all records that are there to the end have been
  returned, each of them once. -/
  complete : (table.first.2.afterAll actions).next.1 = none →
    ∀ key ∈ (table.first.2.afterAll actions).contents,
      ((table.walked actions).map Entry.key).count key = 1
  /-- It comes to its end after as many steps as there are records at the beginning. -/
  ends : table.count ≤ (actions.filter Action.isNext).length + 1 →
    (table.first.2.afterAll actions).next.1 = none

/-- The first record, and behind it those that are ahead then, are the records as a scan lists
them. -/
theorem Sound.keys_first (h : table.Sound) :
    table.first.1.toList.map Entry.key ++ table.first.2.aheadKeys =
      (table.scan.take table.count).1.map Entry.key := by
  obtain ⟨hhead, htail⟩ := table.first_spec
  rw [h.take_scan_count, aheadKeys, table.sameRecords_first.buckets, htail, hhead, keys_entries,
    entries]
  cases table.records <;> rfl

theorem aheadKeys_eq_nil_iff : table.aheadKeys = [] ↔ table.next.1 = none := by
  rw [(next_spec table).1, Option.map_eq_none_iff, List.head?_eq_none_iff, aheadKeys,
    List.map_eq_nil_iff]

theorem afterAll_append (before later : List Action) :
    table.afterAll (before ++ later) = (table.afterAll before).afterAll later :=
  List.foldl_append

section Walked

variable (h : table.Sound) {actions : List Action} (hcalm : Calm table.first.2 actions)
include h hcalm

/-- What is returned, and what is still ahead in the end, was listed at the beginning. -/
theorem Sound.walked_sublist :
    ((table.walked actions).map Entry.key ++ (table.first.2.afterAll actions).aheadKeys).Sublist
      ((table.scan.take table.count).1.map Entry.key) := by
  have hreturned := h.first.returnedKeys_sublist hcalm
  rw [← h.keys_first, walked, List.map_append, List.append_assoc]
  exact hreturned.append_left _

theorem Sound.nodup_walked : ((table.walked actions).map Entry.key).Nodup := by
  have hsublist := (List.sublist_append_left _ _).trans (h.walked_sublist hcalm)
  rw [h.take_scan_count] at hsublist
  exact h.nodup_entries.sublist hsublist

/-- What is there to the end has been returned when the walk has come to its end. -/
theorem Sound.mem_walked (hend : (table.first.2.afterAll actions).next.1 = none) {key : Bytes}
    (hkey : key ∈ (table.first.2.afterAll actions).contents) :
    key ∈ (table.walked actions).map Entry.key := by
  have hthere : key ∈ table.contents := h.first.kept_of_calm hcalm hkey
  have hlisted : key ∈ table.first.1.toList.map Entry.key ++ table.first.2.aheadKeys := by
    obtain ⟨record, hmem, rfl⟩ := mem_contents_iff.mp hthere
    rw [h.keys_first, h.take_scan_count, keys_entries]
    exact List.mem_map_of_mem hmem
  rw [walked, List.map_append, List.mem_append]
  rcases List.mem_append.mp hlisted with hfirst | hahead
  · exact .inl hfirst
  · rcases h.first.mem_returnedKeys hcalm hahead hkey with hreturned | hstill
    · exact .inr hreturned
    · rw [aheadKeys_eq_nil_iff.mpr hend] at hstill
      exact absurd hstill List.not_mem_nil

/-- A key that was removed is not returned any more. -/
theorem Sound.notMem_returnedKeys {before later : List Action} {key : Bytes}
    (hactions : actions = before ++ .call (.delete key) :: later) :
    key ∉ (table.first.2.afterAll (before ++ [.call (.delete key)])).returnedKeys later := by
  intro hmem
  have hthen := h.first.afterAll before
  have hsound := h.first.afterAll (before ++ [.call (.delete key)])
  have hlater : Calm (table.first.2.afterAll (before ++ [.call (.delete key)])) later := by
    rw [afterAll_append]
    rw [hactions] at hcalm
    exact hcalm.later.2
  have hsublist := (List.sublist_append_left _ _).trans (hsound.returnedKeys_sublist hlater)
  have hthere := mem_contents_of_mem_aheadKeys (hsublist.subset hmem)
  rw [afterAll_append] at hthere
  have hdeleted : ((table.first.2.afterAll before).afterAll [.call (.delete key)]).contents =
      (table.first.2.afterAll before).contents.erase key := (hthen.delete_conforms key).2
  rw [hdeleted, Finmap.mem_erase] at hthere
  exact hthere.1 rfl

/-- From a sound table on, walks are stable. -/
theorem Sound.walkStable : table.WalkStable actions where
  inOrder := (List.sublist_append_left _ _).trans (h.walked_sublist hcalm)
  once := h.nodup_walked hcalm
  present := ⟨h.first_conforms.2, fun before _ entry _ hnext =>
    (h.first.afterAll before).next_conforms entry hnext⟩
  gone := fun _ _ _ => h.notMem_returnedKeys hcalm
  complete := fun hend _ hkey =>
    List.count_eq_one_of_mem (h.nodup_walked hcalm) (h.mem_walked hcalm hend hkey)
  ends := by
    intro henough
    have hlength := h.first.length_aheadKeys_afterAll hcalm
    have hahead : table.first.2.aheadKeys.length = table.count - 1 := by
      rw [aheadKeys, table.sameRecords_first.buckets, table.first_spec.2, List.length_map,
        List.length_tail, h.counted]
    rw [← aheadKeys_eq_nil_iff]
    exact List.eq_nil_of_length_eq_zero (by omega)

end Walked

/-- Walks are stable: whatever was done with a table before, a walk that is started then
returns its records in the order of a scan, each of them once and none after it was removed,
for as long as only actions come between that add nothing; and it comes to its end when it has
returned all that are left. -/
theorem walk_stable (wish : Nat) (history actions : List Action)
    (hcalm : Calm ((withBuckets wish).afterAll history).first.2 actions) :
    ((withBuckets wish).afterAll history).WalkStable actions :=
  ((sound_withBuckets wish).afterAll history).walkStable hcalm

/-- Three records, two of them in one bucket. -/
def threeStored : List Action :=
  [.call (.store [1] (.given [1])), .call (.store [2] (.given [2])),
    .call (.store [3] (.given [3]))]

/-- The record that was returned first is removed, and so is the next from the head of its
bucket, while the one behind it is given another value. -/
def interrupted : List Action :=
  [.call (.delete [2]), .call .next, .scan 2, .call (.store [1] (.given [7, 7])),
    .call (.delete [3]), .call (.delete [9]), .call .next]

/-- The walk comes to all three. -/
theorem walk_stable_interrupted :
    Calm ((withBuckets 4).afterAll threeStored).first.2 interrupted ∧
      ((withBuckets 4).afterAll threeStored).walked interrupted =
        [⟨[2], [2]⟩, ⟨[3], [3]⟩, ⟨[1], [7, 7]⟩] ∧
      ((withBuckets 4).afterAll threeStored).WalkStable interrupted := by
  have hcalm : Calm ((withBuckets 4).afterAll threeStored).first.2 interrupted := by
    decide +kernel
  exact ⟨hcalm, by decide +kernel, walk_stable 4 threeStored interrupted hcalm⟩

end MemoryTable
end KeyTable
