import KeyTable.Proofs.Table.OtherKeys

/-!
# Counters

A counter is the number under a text key, and a key that is absent counts as zero.  As long as
a counter is changed by its bumps alone, these answer with one count after the other, whatever
is done with other keys in between; and the count that was stored last is read back.

* `IsAt` — a counter and its count.
* `bump_spec` — a bump answers with the next count, and stores it.
* `looked_of_bump_error` — a bump that fails has only looked the counter up.
* `Tended`, `tended_spec` — so bumps go on counting.
* `tended_bumps` — in particular, while other counters are bumped.
* `counters_count` — what can be said of a counter in any table.
-/

namespace KeyTable
namespace Table

/-! ## Counts -/

/-- Is a counter at this count?  A key that is absent counts as zero. -/
def IsAt (table : Table) (name : String) (n : Nat) : Prop :=
  table.inMemory.contents.lookup (textKey name) = some (LittleEndian.encode 8 n) ∨
    n = 0 ∧ table.inMemory.contents.lookup (textKey name) = none

variable {table later : Table} {name : String} {n : Nat}

/-- A counter stays where it is while its key keeps its value. -/
theorem IsAt.keeps (h : table.IsAt name n) (hkeeps : Keeps (textKey name) table later) :
    later.IsAt name n := by
  rw [IsAt, hkeeps.lookup]
  exact h

theorem IsAt.nextCount_eq (h : table.IsAt name n) :
    nextCount (table.inMemory.contents.lookup (textKey name)) = .ok (UInt64.ofNat (n + 1)) := by
  rcases h with hvalue | ⟨rfl, hnone⟩
  · rw [hvalue, nextCount, readNumber_encode, Except.map, UInt64.ofNat_add]
    rfl
  · rw [hnone]
    rfl

/-- A value of any other width is no count. -/
theorem nextCount_of_length_ne {value : Bytes} (h : value.length ≠ 8) :
    nextCount (some value) = .error (.corrupt (.wrongWidth .counter value.length)) := by
  rw [nextCount, readNumber_of_length_ne h]
  rfl

/-! ## Bumps -/

/-- A table that takes changes stores under a key what it is given. -/
theorem store_writable (hmade : table.Made) (hwritable : table.isWritable = true) (disk : Disk)
    (key : Bytes) (content : Content) :
    (table.store disk key content).answer = .ok content.toBytes ∧
      (table.store disk key content).table.inMemory.contents =
        table.inMemory.contents.insert key content.toBytes := by
  obtain ⟨-, hallows, hcontents⟩ := perform_writable hmade hwritable disk (.store key content)
  exact ⟨MemoryTable.Reply.value.inj hallows, hcontents⟩

/-- A bump answers with the next count, and stores it. -/
theorem bump_spec (hmade : table.Made) (hwritable : table.isWritable = true) (disk : Disk)
    (hat : table.IsAt name n) (hlt : n + 1 < 2 ^ 64) :
    (table.bump disk name).answer = .ok (UInt64.ofNat (n + 1)) ∧
      (table.bump disk name).table.inMemory.contents =
        table.inMemory.contents.insert (textKey name) (LittleEndian.encode 8 (n + 1)) := by
  have hfetched := (Looked.refl.fetch (textKey name)).keeps hmade (textKey name)
  obtain ⟨hanswer, hcontents⟩ := store_writable hfetched.made (hfetched.writable.trans hwritable)
    disk (textKey name) (.given (numberValue (UInt64.ofNat (n + 1))))
  rw [(table.sameRecords_fetch (textKey name)).contents_eq] at hcontents
  rw [bump_eq hmade.sound, hat.nextCount_eq]
  refine ⟨?_, ?_⟩
  · simp only [Outcome.map, hanswer, Except.map]
  · rw [← numberValue_ofNat hlt]
    exact hcontents

/-- So the counter is at this count then. -/
theorem isAt_bump (hmade : table.Made) (hwritable : table.isWritable = true) (disk : Disk)
    (hat : table.IsAt name n) (hlt : n + 1 < 2 ^ 64) :
    (table.bump disk name).table.IsAt name (n + 1) := by
  left
  rw [(bump_spec hmade hwritable disk hat hlt).2, Finmap.lookup_insert]

section ReadOnly

variable {file : FileTable} (hreadOnly : file.readOnly = true)
include hreadOnly

/-- A table that refuses changes looks the counter up, and then refuses the next count. -/
theorem bump_of_readOnly (hsound : file.memory.Sound) (disk : Disk) (name : String) :
    (Table.file file).bump disk name =
      ⟨.error (bumpFault (file.memory.contents.lookup (textKey name))),
        ((Table.file file).fetch (textKey name)).2, disk⟩ :=
  (Follows.refl file).bump_eq hreadOnly hsound disk name

theorem bump_refused (hsound : file.memory.Sound) (disk : Disk)
    (hat : (Table.file file).IsAt name n) :
    ((Table.file file).bump disk name).answer = .error .readOnly := by
  rw [bump_of_readOnly hreadOnly hsound]
  rcases hat with hvalue | ⟨-, hnone⟩
  · rw [show file.memory.contents.lookup (textKey name) = _ from hvalue, bumpFault,
      if_pos (LittleEndian.length_encode 8 n)]
  · rw [show file.memory.contents.lookup (textKey name) = _ from hnone, bumpFault]

end ReadOnly

/-- A bump that fails has only looked the counter up. -/
theorem looked_of_bump_error (hmade : table.Made) (disk : Disk) {fault : Fault}
    (herror : (table.bump disk name).answer = .error fault) :
    Looked table (table.bump disk name).table ∧ (table.bump disk name).disk = disk := by
  have hlooked : Looked table (table.fetch (textKey name)).2 := .fetch .refl _
  cases hwritable : table.isWritable with
  | true =>
    rw [bump_eq hmade.sound] at herror ⊢
    cases hcount : nextCount (table.inMemory.contents.lookup (textKey name)) with
    | error fault => exact ⟨hlooked, rfl⟩
    | ok count =>
      obtain ⟨hstored, -⟩ := store_writable (hlooked.made hmade)
        (hlooked.isWritable_eq.trans hwritable) disk (textKey name) (.given (numberValue count))
      rw [hcount] at herror
      simp only [Outcome.map, hstored, Except.map, reduceCtorEq] at herror
  | false =>
    cases table with
    | memory records => cases hwritable
    | file file =>
      have hreadOnly : file.readOnly = true := by simpa [isWritable] using hwritable
      rw [bump_of_readOnly hreadOnly hmade.sound]
      exact ⟨hlooked, rfl⟩

/-! ## Any number of bumps -/

/-- Is this a bump of the counter? -/
def Deed.bumps (name : String) : Deed → Bool
  | .ask (.bump other) => other == name
  | _ => false

/-- Is a counter changed by its bumps alone, while these things are done one after the other? -/
def Tended (name : String) (table : Table) (disk : Disk) : List Deed → Prop
  | [] => True
  | deed :: deeds =>
    (deed.bumps name = true ∨ deed.Spares (textKey name) table disk) ∧
      Tended name (table.doing disk deed).1 (table.doing disk deed).2 deeds

/-- What the bumps of a counter are answered, while these things are done. -/
def counted (name : String) (table : Table) (disk : Disk) : List Deed → List (Except Fault UInt64)
  | [] => []
  | deed :: deeds =>
    let answers := counted name (table.doing disk deed).1 (table.doing disk deed).2 deeds
    if deed.bumps name then (table.bump disk name).answer :: answers else answers

/-- The table when these things have been done. -/
def doingAll (table : Table) (disk : Disk) : List Deed → Table
  | [] => table
  | deed :: deeds => doingAll (table.doing disk deed).1 (table.doing disk deed).2 deeds

theorem eq_of_bumps {deed : Deed} (h : deed.bumps name = true) : deed = .ask (.bump name) := by
  cases deed with
  | ask request =>
    cases request with
    | bump other => rw [eq_of_beq h]
    | _ => cases h
  | patch key bytes => cases h

theorem doing_bump (table : Table) (disk : Disk) (name : String) :
    table.doing disk (.ask (.bump name)) =
      ((table.bump disk name).table, (table.bump disk name).disk) := by
  obtain ⟨htable, hdisk⟩ := ofAnswer_eq (table.bump disk name).answer
    (table.bump disk name).table (table.bump disk name).disk
  exact Prod.ext htable hdisk

/-- A counter that is changed by its bumps alone goes on counting.  The induction is on what is
done: a bump is at the next count, and all else leaves the counter where it is. -/
theorem tended_spec {disk : Disk} {deeds : List Deed} (hmade : table.Made)
    (hwritable : table.isWritable = true) (hat : table.IsAt name n)
    (htended : Tended name table disk deeds)
    (hlt : n + deeds.countP (Deed.bumps name) < 2 ^ 64) :
    counted name table disk deeds = (List.range' (n + 1) (deeds.countP (Deed.bumps name))).map
        (fun count => .ok (UInt64.ofNat count)) ∧
      (table.doingAll disk deeds).IsAt name (n + deeds.countP (Deed.bumps name)) ∧
      (table.doingAll disk deeds).Made := by
  induction deeds generalizing table disk n with
  | nil => exact ⟨rfl, hat, hmade⟩
  | cons deed deeds ih =>
    obtain ⟨hdeed, hrest⟩ := htended
    rw [counted, doingAll]
    by_cases hbumps : deed.bumps name = true
    · rw [List.countP_cons_of_pos hbumps] at hlt ⊢
      obtain rfl := eq_of_bumps hbumps
      have hnext : n + 1 < 2 ^ 64 := by omega
      obtain ⟨hlater, hopen⟩ := hmade.bump disk name
      rw [doing_bump] at hrest ⊢
      obtain ⟨hcounted, hlast, hlastMade⟩ := ih hlater (hopen.trans hwritable)
        (isAt_bump hmade hwritable disk hat hnext) hrest (by omega)
      rw [if_pos hbumps, hcounted, (bump_spec hmade hwritable disk hat hnext).1, List.range'_succ,
        List.map_cons]
      refine ⟨rfl, ?_, hlastMade⟩
      rw [Nat.add_comm _ 1, ← Nat.add_assoc]
      exact hlast
    · have hkept := hmade.keeps_doing (hdeed.resolve_left hbumps)
      rw [List.countP_cons_of_neg hbumps] at hlt ⊢
      rw [if_neg hbumps]
      exact ih hkept.made (hkept.writable.trans hwritable) (hat.keeps hkept) hrest hlt

/-- Names that differ are names of different counters. -/
theorem spares_bump {other : String} (h : other ≠ name) (table : Table) (disk : Disk) :
    (Deed.ask (.bump other)).Spares (textKey name) table disk where
  others := by
    intro hsame
    exact h (textKey_injective (Option.some.inj hsame))
  reads := nofun

/-- So a counter is tended while any counters are bumped. -/
theorem tended_bumps (names : List String) (table : Table) (disk : Disk) :
    Tended name table disk (names.map fun other => .ask (.bump other)) := by
  induction names generalizing table disk with
  | nil => trivial
  | cons other names ih =>
    refine ⟨?_, ih _ _⟩
    by_cases hsame : other = name
    · exact .inl (by simp [Deed.bumps, hsame])
    · exact .inr (spares_bump hsame table disk)

theorem countP_bumps (names : List String) :
    (names.map fun other => Deed.ask (.bump other)).countP (Deed.bumps name) =
      names.count name := by
  rw [List.countP_map]
  rfl

/-! ## Counters in any table -/

/-- What can be said of a counter. -/
structure Counts (table : Table) (name : String) : Prop where
  /-- A key that is absent and a value of eight bytes are counts. -/
  isAt : (∀ value ∈ table.inMemory.contents.lookup (textKey name), value.length = 8) →
    ∃ n < 2 ^ 64, table.IsAt name n
  /-- A bump answers with the next count, and stores this and nothing else. -/
  bumped : table.isWritable = true → ∀ disk n, table.IsAt name n → n + 1 < 2 ^ 64 →
    (table.bump disk name).answer = .ok (UInt64.ofNat (n + 1)) ∧
      (table.bump disk name).table.inMemory.contents =
        table.inMemory.contents.insert (textKey name) (LittleEndian.encode 8 (n + 1))
  /-- So bumps answer with one count after the other, whatever is done with other keys in
  between. -/
  tended : table.isWritable = true → ∀ disk n deeds, table.IsAt name n →
    Tended name table disk deeds → n + deeds.countP (Deed.bumps name) < 2 ^ 64 →
      counted name table disk deeds = (List.range' (n + 1) (deeds.countP (Deed.bumps name))).map
          (fun count => .ok (UInt64.ofNat count)) ∧
        (table.doingAll disk deeds).IsAt name (n + deeds.countP (Deed.bumps name)) ∧
        (table.doingAll disk deeds).Made
  /-- Counters that are bumped in any order do not get in the way of each other. -/
  mixed : table.isWritable = true → ∀ disk n (names : List String), table.IsAt name n →
    n + names.count name < 2 ^ 64 →
      counted name table disk (names.map fun other => .ask (.bump other)) =
        (List.range' (n + 1) (names.count name)).map fun count => .ok (UInt64.ofNat count)
  /-- A value of another width is no count. -/
  corrupt : ∀ disk value, table.inMemory.contents.lookup (textKey name) = some value →
    value.length ≠ 8 →
      (table.bump disk name).answer = .error (.corrupt (.wrongWidth .counter value.length))
  /-- A table that refuses changes refuses the next count. -/
  refused : table.isWritable = false → ∀ disk n, table.IsAt name n →
    (table.bump disk name).answer = .error .readOnly
  /-- A bump that fails changes the value of no key, and leaves the disk as it was. -/
  failed : ∀ disk fault, (table.bump disk name).answer = .error fault →
    (table.bump disk name).table.inMemory.contents = table.inMemory.contents ∧
      (table.bump disk name).disk = disk
  /-- A count that was stored is read back as a handle. -/
  handle : ∀ n, table.inMemory.contents.lookup (textKey name) = some (LittleEndian.encode 8 n) →
    (table.fetchHandle name).1 = .ok (UInt64.ofNat n)
  /-- If it is small enough, it is read back as a signed number, too. -/
  integer : ∀ n < 2 ^ 63,
    table.inMemory.contents.lookup (textKey name) = some (LittleEndian.encode 8 n) →
      ∃ count : Int64, (table.fetchInteger name).1 = .ok count ∧ count.toInt = n

/-- In every table that can be come by, counters count. -/
theorem counters_count (hmade : table.Made) (name : String) : Counts table name where
  isAt := by
    intro hwidth
    cases hlookup : table.inMemory.contents.lookup (textKey name) with
    | none => exact ⟨0, by decide, .inr ⟨rfl, hlookup⟩⟩
    | some value =>
      obtain ⟨n, hlt, rfl⟩ := exists_encode (hwidth value hlookup)
      exact ⟨n, hlt, .inl hlookup⟩
  bumped := by
    intro hwritable disk n hat hlt
    exact bump_spec hmade hwritable disk hat hlt
  tended := by
    intro hwritable disk n deeds hat htended hlt
    exact tended_spec hmade hwritable hat htended hlt
  mixed := by
    intro hwritable disk n names hat hlt
    have htended : Tended name table disk _ := tended_bumps names table disk
    rw [← countP_bumps] at hlt ⊢
    exact (tended_spec hmade hwritable hat htended hlt).1
  corrupt := by
    intro disk value hlookup hlength
    rw [bump_eq hmade.sound, hlookup, nextCount_of_length_ne hlength]
  refused := by
    intro hwritable disk n hat
    cases table with
    | memory records => cases hwritable
    | file file => exact bump_refused (by simpa [isWritable] using hwritable) hmade.sound disk hat
  failed := by
    intro disk fault herror
    obtain ⟨hlooked, hdisk⟩ := looked_of_bump_error hmade disk herror
    exact ⟨hlooked.sameRecords.contents_eq, hdisk⟩
  handle := by
    intro n hlookup
    rw [fetchHandle, fetch_eq_found hmade.sound, hlookup]
    exact readNumber_encode .handle n
  integer := by
    intro n hlt hlookup
    refine ⟨(UInt64.ofNat n).toInt64, ?_, toInt_ofNat hlt⟩
    rw [fetchInteger, fetch_eq_found hmade.sound, hlookup]
    exact congrArg (Except.map UInt64.toInt64) (readNumber_encode .integer n)

/-- Two counters are bumped in turn, and a text is stored and removed in between. -/
theorem counters_count_in_turn :
    let table : Table := .file (.anonymous {})
    let deeds : List Deed := [.ask (.bump "hits"), .ask (.bump "misses"),
      .ask (.storeText "name" (some "x")), .ask (.bump "hits"), .ask (.deleteText "name")]
    table.Made ∧ Tended "hits" table .empty deeds ∧
      counted "hits" table .empty deeds = [.ok 1, .ok 2] ∧
      (table.doingAll .empty deeds).IsAt "hits" 2 := by
  intro table deeds
  have hmade : table.Made := .file {}
  have hother : ∀ {deed : Deed} {there : Table} {disk : Disk},
      deed.key? ≠ some (textKey "hits") → (∀ stream, deed ≠ .ask (.read stream)) →
        deed.Spares (textKey "hits") there disk :=
    fun hkey hread => ⟨hkey, fun stream hsame => absurd hsame (hread stream)⟩
  have htended : Tended "hits" table .empty deeds :=
    ⟨.inl rfl, .inr (hother (by decide) nofun), .inr (hother (by decide) nofun), .inl rfl,
      .inr (hother (by decide) nofun), trivial⟩
  have hfresh : table.IsAt "hits" 0 := .inr ⟨rfl, by decide +kernel⟩
  obtain ⟨hcounted, hlast, -⟩ :=
    (counters_count hmade "hits").tended rfl .empty 0 deeds hfresh htended (by decide)
  exact ⟨hmade, htended, hcounted, hlast⟩

end Table
end KeyTable
