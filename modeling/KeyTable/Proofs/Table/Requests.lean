import KeyTable.Proofs.Table.OtherKeys

/-!
# What requests are made of

Reading a set of a dump into a table stores the records of the set, one after the other, and
does nothing else to the table, wherever the stream comes from and whatever ends the reading.
To bump a counter is to fetch and perhaps to store.  So a property of tables that fetching and
storing keep is kept by every request, if looking and the other changes keep it too.

* `Filled`, `filled_readSet` — what a table becomes by stores, and that reading a set only stores.
* `Stable`, `Stable.serve` — a property that fetching, storing and work on the log keep, and that
  a request keeps then.
-/

namespace KeyTable
namespace Table

/-! ## Reading a set -/

/-- Can a table become the other by stores?  The disk may be any at each of them. -/
inductive Filled (table : Table) : Table → Prop
  | refl : Filled table table
  | store {later : Table} (h : Filled table later) (disk : Disk) (key : Bytes)
      (content : Content) : Filled table (later.store disk key content).table

end Table

namespace Dump

open Table (Filled)

variable {table : Table} {loading : Loading}

theorem filled_accept (h : Filled table loading.table) (item : Item) :
    Filled table (loading.accept item).2.table := by
  cases item with
  | endOfSet => exact h
  | record entry =>
    have hstored := h.store loading.disk entry.key (.given entry.value)
    simp only [Loading.accept]
    split <;> exact hstored

theorem filled_deliver (h : Filled table loading.table) (items : List Item) :
    Filled table (deliver Loading.accept items loading).2.table := by
  induction items generalizing loading with
  | nil => exact h
  | cons item items ih =>
    have haccepted := filled_accept h item
    rw [deliver]
    split
    · next after haccept =>
      rw [haccept] at haccepted
      exact ih haccepted
    · next fault after haccept =>
      rw [haccept] at haccepted
      exact haccepted

theorem filled_feedLine (h : Filled table loading.table) (decoder : Decoder) (line : Bytes) :
    Filled table (decoder.feedLine Loading.accept loading line).receiver.table := by
  have hdelivered := filled_deliver h (step decoder.pending line).items
  unfold Decoder.feedLine
  dsimp only
  split
  · next after hdeliver =>
    rw [hdeliver] at hdelivered
    exact hdelivered
  · next fault after hdeliver =>
    rw [hdeliver] at hdelivered
    exact hdelivered

theorem filled_finish (h : Filled table loading.table) (decoder : Decoder) :
    Filled table (decoder.finish Loading.accept loading).receiver.table := by
  have hrest : Filled table (decoder.feedRest Loading.accept loading).receiver.table := by
    unfold Decoder.feedRest
    split
    · exact h
    · exact filled_feedLine h _ _
  unfold Decoder.finish
  dsimp only
  split
  · exact hrest
  · exact filled_deliver hrest _

/-- The induction is on the limit, of which each line takes one. -/
theorem filled_readLines (h : Filled table loading.table) (limit : Nat) (decoder : Decoder)
    (stream : Stream) : Filled table (readLines limit decoder loading stream).table := by
  induction limit generalizing decoder loading stream with
  | zero => exact filled_finish h decoder
  | succ limit ih =>
    rw [readLines]
    split
    · exact filled_finish h decoder
    · next line rest hread =>
      have hfed := filled_feedLine h decoder line
      dsimp only
      split
      · exact hfed
      · split
        · exact hfed
        · exact ih hfed _ _

/-- Reading a set into a table only stores. -/
theorem filled_readSet (table : Table) (disk : Disk) (stream : Stream) :
    Filled table (readSet table disk stream).table := by
  have hstart : Filled table (⟨table, disk, ⟨0, false⟩⟩ : Loading).table := .refl
  exact filled_readLines hstart _ _ _

end Dump

namespace Table

/-! ## What requests keep -/

/-- Is a property of tables kept by fetching, by storing and by all that is done to a log? -/
structure Stable (P : Table → Prop) : Prop where
  /-- It is a property of tables that can be come by. -/
  made : ∀ {table}, P table → table.Made
  /-- Fetching keeps it. -/
  fetch : ∀ {table}, P table → ∀ key, P (table.fetch key).2
  /-- Storing keeps it. -/
  store : ∀ {table}, P table → ∀ disk key content, P (table.store disk key content).table
  /-- It does not depend on the log. -/
  log : ∀ {file after : FileTable}, P (.file file) → Step (.file file) (.file after) →
    after.memory = file.memory → P (.file after)

namespace Stable

variable {P : Table → Prop} {table later : Table} {disk : Disk} {request : Request}

theorem filled (hstable : Stable P) (h : P table) (hfilled : Filled table later) : P later := by
  induction hfilled with
  | refl => exact h
  | store _ disk key content ih => exact hstable.store ih disk key content

theorem bump (hstable : Stable P) (h : P table) (disk : Disk) (name : String) :
    P (table.bump disk name).table := by
  have hfetched := hstable.fetch h (textKey name)
  rcases (hstable.made h).table_bump disk name with hsame | ⟨content, hstored⟩
  · rw [hsame]
    exact hfetched
  · rw [hstored]
    exact hstable.store hfetched disk (textKey name) content

/-- A request keeps such a property, if it is kept by looking and by the call that the request
comes down to. -/
theorem serve (hstable : Stable P) (h : P table)
    (hlook : request.isLook = true → P (table.serve disk request).table)
    (hcall : ∀ call, request.change? = some call → P (table.perform disk call).2.1) :
    P (table.serve disk request).table := by
  cases serving table disk request with
  | looks hlooks _ => exact hlook hlooks
  | calls call hchange hlater =>
    rw [hlater]
    exact hcall call hchange
  | bumps name _ hlater =>
    rw [hlater]
    exact hstable.bump h disk name
  | reads stream _ hlater =>
    rw [hlater]
    exact hstable.filled h (Dump.filled_readSet table disk stream)
  | stays hlater =>
    rw [hlater]
    exact h
  | logs file after htable hlater hstep hmemory _ =>
    subst htable
    rw [hlater]
    exact hstable.log h hstep hmemory

end Stable
end Table
end KeyTable
