import Mathlib.Data.Finmap
import KeyTable.Log.Frame
import KeyTable.MemoryTable.Record

/-!
# Contents

What a table holds, apart from how it holds it: a finite map from keys to values.
A list of records without a repeated key gives one (`ofEntries`), in whatever
order they are listed (`ofEntries_eq_of_perm`).

* `lookup_ofEntries_eq_some_iff` — what is found under a key is what is listed.
* `ofEntries_middle`, `ofEntries_erase` — the map when one entry of the list is
  singled out.
* `lookup_foldl_stores` — what is found when records are stored over what there is.
* `apply`, `ofChanges` — the effect that a logged change is to have, and what becomes
  of many.
-/

namespace KeyTable

/-- A finite map from keys to values. -/
abbrev Contents := Finmap fun _ : Bytes => Bytes

namespace Contents

/-- Number of keys. -/
def size (contents : Contents) : Nat := contents.entries.card

/-- A key that is new adds one. -/
theorem size_insert {contents : Contents} {key : Bytes} (h : key ∉ contents) (value : Bytes) :
    size (contents.insert key value) = contents.size + 1 := by
  rw [size, Finmap.entries_insert_of_notMem h, Multiset.card_cons, size]

/-- Removing a key that was new when it was added. -/
theorem erase_insert {contents : Contents} {key : Bytes} (h : key ∉ contents) (value : Bytes) :
    (contents.insert key value).erase key = contents := by
  refine Finmap.ext_lookup ?_
  intro other
  by_cases heq : other = key
  · rw [heq, Finmap.lookup_erase, Finmap.lookup_eq_none.mpr h]
  · rw [Finmap.lookup_erase_ne heq, Finmap.lookup_insert_of_ne _ heq]

/-- Removing a key that is absent. -/
theorem erase_of_notMem {contents : Contents} {key : Bytes} (h : key ∉ contents) :
    contents.erase key = contents := by
  refine Finmap.ext_lookup ?_
  intro other
  by_cases heq : other = key
  · rw [heq, Finmap.lookup_erase, Finmap.lookup_eq_none.mpr h]
  · rw [Finmap.lookup_erase_ne heq]

/-! ## Logged changes -/

/-- The effect of a change. -/
def apply (contents : Contents) : Change → Contents
  | .store key value => contents.insert key value
  | .delete key => contents.erase key

/-- What changes make of nothing, one after the other. -/
def ofChanges (changes : List Change) : Contents := changes.foldl apply ∅

theorem ofChanges_append_singleton (changes : List Change) (change : Change) :
    ofChanges (changes ++ [change]) = (ofChanges changes).apply change :=
  List.foldl_append

/-- What is found under a key was stored there. -/
theorem store_mem_of_lookup {changes : List Change} {key value : Bytes}
    (h : (ofChanges changes).lookup key = some value) : .store key value ∈ changes := by
  induction changes using List.reverseRecOn with
  | nil =>
    rw [ofChanges, List.foldl_nil, Finmap.lookup_empty] at h
    cases h
  | append_singleton changes change ih =>
    rw [ofChanges_append_singleton] at h
    rw [List.mem_append, List.mem_singleton]
    cases change with
    | store other fresh =>
      by_cases heq : key = other
      · rw [apply, heq, Finmap.lookup_insert, Option.some_inj] at h
        exact .inr (by rw [heq, h])
      · rw [apply, Finmap.lookup_insert_of_ne _ heq] at h
        exact .inl (ih h)
    | delete other =>
      by_cases heq : key = other
      · rw [apply, heq, Finmap.lookup_erase] at h
        cases h
      · rw [apply, Finmap.lookup_erase_ne heq] at h
        exact .inl (ih h)

/-! ## From a list of records -/

/-- The map that a list of records gives. -/
def ofEntries (entries : List Entry) : Contents :=
  entries.foldr (fun entry contents => contents.insert entry.key entry.value) ∅

@[simp] theorem ofEntries_nil : ofEntries [] = ∅ := rfl

theorem ofEntries_cons (entry : Entry) (entries : List Entry) :
    ofEntries (entry :: entries) = (ofEntries entries).insert entry.key entry.value := rfl

theorem mem_ofEntries_iff {entries : List Entry} {key : Bytes} :
    key ∈ ofEntries entries ↔ key ∈ entries.map Entry.key := by
  induction entries with
  | nil => exact iff_of_false Finmap.notMem_empty List.not_mem_nil
  | cons entry entries ih =>
    rw [ofEntries_cons, Finmap.mem_insert, ih, List.map_cons, List.mem_cons]

/-- What is found under a key is what is listed. -/
theorem lookup_ofEntries_eq_some_iff {entries : List Entry} (h : (entries.map Entry.key).Nodup)
    {key value : Bytes} :
    (ofEntries entries).lookup key = some value ↔ ⟨key, value⟩ ∈ entries := by
  induction entries with
  | nil => simp
  | cons entry entries ih =>
    rw [List.map_cons, List.nodup_cons] at h
    rw [ofEntries_cons, List.mem_cons]
    by_cases heq : key = entry.key
    · rw [heq, Finmap.lookup_insert, Option.some_inj]
      constructor
      · intro hvalue
        exact Or.inl (by rw [← hvalue])
      · rintro (hhead | htail)
        · rw [← hhead]
        · exact absurd (List.mem_map_of_mem htail) h.1
    · rw [Finmap.lookup_insert_of_ne _ heq, ih h.2]
      constructor
      · exact Or.inr
      · rintro (hhead | htail)
        · exact absurd (congrArg Entry.key hhead) heq
        · exact htail

/-- The order of the list makes no difference. -/
theorem ofEntries_eq_of_perm {entries others : List Entry} (h : (entries.map Entry.key).Nodup)
    (hperm : entries.Perm others) : ofEntries entries = ofEntries others := by
  have hothers : (others.map Entry.key).Nodup := (hperm.map Entry.key).nodup_iff.mp h
  refine Finmap.ext_lookup ?_
  intro key
  refine Option.ext ?_
  intro value
  rw [lookup_ofEntries_eq_some_iff h, lookup_ofEntries_eq_some_iff hothers, hperm.mem_iff]

theorem size_ofEntries {entries : List Entry} (h : (entries.map Entry.key).Nodup) :
    (ofEntries entries).size = entries.length := by
  induction entries with
  | nil => rfl
  | cons entry entries ih =>
    rw [List.map_cons, List.nodup_cons] at h
    rw [ofEntries_cons, size_insert (mt mem_ofEntries_iff.mp h.1), ih h.2, List.length_cons]

/-- The changes that store records one after the other. -/
def stores (entries : List Entry) : List Change :=
  entries.map fun entry => .store entry.key entry.value

theorem nodup_stores {entries : List Entry} (h : (entries.map Entry.key).Nodup) :
    (stores entries).Nodup := by
  refine (List.Nodup.of_map Entry.key h).map ?_
  intro entry other heq
  cases entry
  cases other
  cases heq
  rfl

/-- Storing records into nothing gives the map that they make up. -/
theorem foldl_apply_stores {entries : List Entry} (h : (entries.map Entry.key).Nodup) :
    (stores entries).foldl apply ∅ = ofEntries entries := by
  have hreverse : (stores entries).foldl apply ∅ = ofEntries entries.reverse := by
    rw [ofEntries, List.foldr_reverse, stores, List.foldl_map]
    rfl
  rw [hreverse, ofEntries_eq_of_perm h (List.reverse_perm entries).symm]

/-- The value of the last record of a key. -/
def latest? (entries : List Entry) (key : Bytes) : Option Bytes :=
  (entries.reverse.find? (·.key == key)).map Entry.value

theorem latest?_eq_none_iff {entries : List Entry} {key : Bytes} :
    latest? entries key = none ↔ ∀ entry ∈ entries, entry.key ≠ key := by
  simp [latest?]

theorem latest?_append_singleton (entries : List Entry) (entry : Entry) (key : Bytes) :
    latest? (entries ++ [entry]) key =
      if key = entry.key then some entry.value else latest? entries key := by
  rw [latest?, List.reverse_append, List.reverse_singleton, List.singleton_append,
    List.find?_cons, latest?]
  by_cases heq : key = entry.key
  · simp [heq]
  · have hother : (entry.key == key) = false := by simpa using Ne.symm heq
    rw [if_neg heq, hother]

/-- Storing records overlays what there is: the last record of a key wins, and keys that no
record has keep their values. -/
theorem lookup_foldl_stores (contents : Contents) (entries : List Entry) (key : Bytes) :
    ((stores entries).foldl apply contents).lookup key =
      (latest? entries key).or (contents.lookup key) := by
  induction entries using List.reverseRecOn with
  | nil => rfl
  | append_singleton entries entry ih =>
    rw [stores, List.map_append, List.foldl_append, latest?_append_singleton]
    show (((stores entries).foldl apply contents).insert entry.key entry.value).lookup key = _
    by_cases heq : key = entry.key
    · rw [if_pos heq, heq, Finmap.lookup_insert, Option.some_or]
    · rw [if_neg heq, Finmap.lookup_insert_of_ne _ heq, ih]

section Middle

variable {front back : List Entry} {entry : Entry}
  (h : ((front ++ entry :: back).map Entry.key).Nodup)
include h

/-- One entry of the list, wherever it is listed. -/
theorem ofEntries_middle :
    ofEntries (front ++ entry :: back) =
      (ofEntries (front ++ back)).insert entry.key entry.value :=
  ofEntries_eq_of_perm h List.perm_middle

theorem notMem_ofEntries_middle : entry.key ∉ ofEntries (front ++ back) := by
  have hcons := (List.perm_middle.map Entry.key).nodup_iff.mp h
  rw [List.map_cons, List.nodup_cons] at hcons
  exact mt mem_ofEntries_iff.mp hcons.1

/-- To drop an entry is to remove its key. -/
theorem ofEntries_erase :
    ofEntries (front ++ back) = (ofEntries (front ++ entry :: back)).erase entry.key := by
  rw [ofEntries_middle h, erase_insert (notMem_ofEntries_middle h)]

/-- To give an entry another value is to store it under its key. -/
theorem ofEntries_replace {other : Entry} (hkey : other.key = entry.key) :
    ofEntries (front ++ other :: back) =
      (ofEntries (front ++ entry :: back)).insert entry.key other.value := by
  have hother : ((front ++ other :: back).map Entry.key).Nodup := by
    rw [List.map_append, List.map_cons, hkey, ← List.map_cons, ← List.map_append]
    exact h
  rw [ofEntries_middle h, ofEntries_middle hother, hkey, Finmap.insert_insert]

end Middle

end Contents
end KeyTable
