import KeyTable.Proofs.Dump.Feeding

/-!
# A decoder in registers

A decoder can do with a few registers that are set one by one, instead of the record being
collected: a flag for whether there is such a record, its key, its mode, the value so far, and
a flag for whether any of its value has come.  When a receiver refuses an item, lines end early,
in front of the registers that they would have set.

This file says that the registers always show what a decoder has (`Tracks`), so nothing of a
record that was given up can stay in one of them.

* `Registers.feedLine`, `Registers.feed`, `Registers.finish` — the decoder in registers.
* `Shows` — the registers of each record being collected, and of none.
* `agrees_feedLine`, `agrees_feed`, `agrees_finish` — both decoders hand on the same.
* `Reached` — what both become by any calls.
* `refused_as_new` — the registers are consistent at any time, and a decoder is as good as new
  when a receiver has refused an item, and when it has finished.
-/

namespace KeyTable
namespace Dump

/-! ## Registers -/

/-- The registers of a decoder. -/
structure Registers where
  /-- Is a record being collected? -/
  accumulating : Bool := false
  /-- Its key, if a header has set it. -/
  key : Option Bytes := none
  /-- Are its value lines in base64? -/
  base64 : Bool := false
  /-- The value collected so far. -/
  value : Bytes := []
  /-- Has any of the value come? -/
  gotValue : Bool := false
  /-- The bytes behind the last newline. -/
  held : Bytes := []
  deriving Repr, DecidableEq

/-- What came of handing a piece of a dump to a decoder in registers. -/
structure Taken (σ ε : Type) where
  /-- Why the receiver refused an item, if it did. -/
  answer : Except ε Unit
  /-- The registers afterwards. -/
  registers : Registers
  /-- The receiver afterwards. -/
  receiver : σ

/-- Goes on with the registers, unless the receiver has refused an item. -/
def Taken.andThen {σ ε : Type} (taken : Taken σ ε) (next : Registers → σ → Taken σ ε) :
    Taken σ ε :=
  match taken.answer with
  | .error _ => taken
  | .ok () => next taken.registers taken.receiver

namespace Registers

variable {σ ε : Type}

/-- Takes the record being collected, and clears its registers. -/
def takeRecord (registers : Registers) : Option Entry × Registers :=
  if registers.accumulating then
    let value :=
      if !registers.base64 && registers.gotValue then registers.value ++ [Ascii.nul]
      else registers.value
    (some ⟨registers.key.getD emptyKey, value⟩, { held := registers.held })
  else (none, registers)

/-- Hands on the record being collected, if there is one. -/
def flush (registers : Registers) (accept : σ → Item → Except ε Unit × σ) (receiver : σ) :
    Taken σ ε :=
  let (record, cleared) := registers.takeRecord
  let (answer, receiver) := deliver accept (record.map Item.record).toList receiver
  ⟨answer, cleared, receiver⟩

/-- Takes the content of a value line.  Blank lines in front of the first header mean nothing. -/
def takeValue (registers : Registers) (content : Bytes) : Registers :=
  if registers.base64 then
    match Base64.decode? content with
    | some bytes =>
      if bytes = [] then registers
      else { registers with value := registers.value ++ bytes, gotValue := true }
    | none => registers
  else
    let value :=
      if registers.gotValue then registers.value ++ [Ascii.newline] else registers.value
    if content = [] ∧ registers.key = none then { registers with value }
    else { registers with accumulating := true, value := value ++ content, gotValue := true }

/-- Takes one line, given without its newline. -/
def feedLine (registers : Registers) (accept : σ → Item → Except ε Unit × σ) (receiver : σ)
    (line : Bytes) : Taken σ ε :=
  match Line.ofBytes line with
  | .terminator =>
    (registers.flush accept receiver).andThen fun cleared receiver =>
      let (answer, receiver) := deliver accept [.endOfSet] receiver
      ⟨answer, cleared, receiver⟩
  | .header key base64 =>
    (registers.flush accept receiver).andThen fun cleared receiver =>
      ⟨.ok (), { cleared with accumulating := true, key := some (unescapeKey key), base64 },
        receiver⟩
  | .value content => ⟨.ok (), registers.takeValue content, receiver⟩

/-- Takes any bytes, line by line. -/
def feed (accept : σ → Item → Except ε Unit × σ) (registers : Registers) (receiver : σ)
    (bytes : Bytes) : Taken σ ε :=
  match _h : bytes.fromNewline with
  | [] => ⟨.ok (), { registers with held := registers.held ++ bytes }, receiver⟩
  | _ :: rest =>
    ({ registers with held := [] }.feedLine accept receiver
        (registers.held ++ bytes.upToNewline)).andThen
      fun registers receiver => feed accept registers receiver rest
termination_by bytes.length
decreasing_by exact Bytes.length_of_fromNewline_eq_cons _h

/-- The end of the dump: takes a last line without a newline, and hands on the record being
collected. -/
def finish (registers : Registers) (accept : σ → Item → Except ε Unit × σ) (receiver : σ) :
    Taken σ ε :=
  let last :=
    if registers.held = [] then ⟨.ok (), registers, receiver⟩
    else { registers with held := [] }.feedLine accept receiver registers.held
  last.andThen (flush · accept ·)

/-! ## What the registers show -/

/-- The registers when these lines of text have come, the latest first. -/
def ofText (key : Option Bytes) (parts : List Bytes) (held : Bytes) : Registers where
  accumulating := true
  key := key
  value := [Ascii.newline].intercalate parts.reverse
  gotValue := !parts.isEmpty
  held := held

/-- The registers when lines of base64 have come that hold these bytes, the latest first. -/
def ofBase64 (key : Bytes) (parts : List Bytes) (gotValue : Bool) (held : Bytes) : Registers where
  accumulating := true
  key := some key
  base64 := true
  value := parts.reverse.flatten
  gotValue := gotValue
  held := held

end Registers

/-- Do the registers show the record that is being collected? -/
inductive Shows : Registers → Option Pending → Prop
  /-- If there is none, they are all cleared. -/
  | idle (held : Bytes) : Shows { held } none
  /-- A record without a header has a value. -/
  | text (key : Option Bytes) (parts : List Bytes) (held : Bytes) (hkey : key = none → parts ≠ []) :
      Shows (.ofText key parts held) (some ⟨key.getD emptyKey, false, parts⟩)
  /-- The lines of base64 may all be empty. -/
  | base64 (key : Bytes) (parts : List Bytes) (gotValue : Bool) (held : Bytes) :
      Shows (.ofBase64 key parts gotValue held) (some ⟨key, true, parts⟩)

variable {registers : Registers} {pending : Option Pending}

/-- Taking the record being collected takes it as a whole, and clears all its registers. -/
theorem Shows.takeRecord_eq (h : Shows registers pending) :
    (registers.takeRecord.1.map Item.record).toList = completed pending ∧
      registers.takeRecord.2 = { held := registers.held } := by
  cases h with
  | idle held => exact ⟨rfl, rfl⟩
  | text key parts held hkey =>
    refine ⟨?_, rfl⟩
    cases parts <;> rfl
  | base64 key parts gotValue held => exact ⟨rfl, rfl⟩

/-- A line of text goes behind the others. -/
theorem takeValue_ofText {key : Option Bytes} {parts : List Bytes} (hkey : key = none → parts ≠ [])
    (content held : Bytes) :
    (Registers.ofText key parts held).takeValue content =
      Registers.ofText key (content :: parts) held := by
  cases parts with
  | nil =>
    have hsome : ¬ (content = [] ∧ key = none) := fun hboth => hkey hboth.2 rfl
    simp [Registers.takeValue, Registers.ofText, hsome]
  | cons last parts =>
    have hne : (last :: parts).reverse ≠ [] := by simp
    have hjoined := Bytes.intercalate_concat hne [Ascii.newline] content
    rw [← List.reverse_cons] at hjoined
    simp only [Registers.takeValue, Registers.ofText, hjoined, List.isEmpty_cons, Bool.not_false,
      if_true, Bool.false_eq_true, if_false]
    split
    · next hblank => rw [hblank.1, List.append_nil]
    · rfl

/-- A value line does to the registers what it does to the record being collected. -/
theorem Shows.takeValue (h : Shows registers pending) (content : Bytes) :
    Shows (registers.takeValue content) (stepValue pending content).pending ∧
      (stepValue pending content).items = [] ∧
      (registers.takeValue content).held = registers.held := by
  cases h with
  | idle held =>
    by_cases hblank : content = []
    · simp only [stepValue, Registers.takeValue, hblank]
      exact ⟨.idle held, rfl, rfl⟩
    · have hbegun : Registers.takeValue { held } content = .ofText none [content] held := by
        simp [Registers.takeValue, Registers.ofText, hblank]
      rw [hbegun, stepValue, if_neg hblank]
      exact ⟨.text none [content] held (by simp), rfl, rfl⟩
  | text key parts held hkey =>
    rw [takeValue_ofText hkey]
    exact ⟨.text key (content :: parts) held (by simp), rfl, rfl⟩
  | base64 key parts gotValue held =>
    simp only [stepValue, Registers.takeValue, Registers.ofBase64, if_true]
    cases Base64.decode? content with
    | none => exact ⟨.base64 key parts gotValue held, rfl, rfl⟩
    | some bytes =>
      have hvalue : ((bytes :: parts).reverse).flatten = parts.reverse.flatten ++ bytes := by simp
      by_cases hempty : bytes = []
      · have hsame := Shows.base64 key (bytes :: parts) gotValue held
        rw [Registers.ofBase64, hvalue, hempty, List.append_nil] at hsame
        simp only [hempty, if_true]
        exact ⟨hsame, by simp⟩
      · have hmore := Shows.base64 key (bytes :: parts) true held
        rw [Registers.ofBase64, hvalue] at hmore
        simp only [hempty, if_false]
        exact ⟨hmore, by simp⟩

/-! ## Both decoders -/

/-- Do the registers show what a decoder has? -/
structure Tracks (registers : Registers) (decoder : Decoder) : Prop where
  /-- They show the record being collected. -/
  pending : Shows registers decoder.pending
  /-- They hold the same bytes. -/
  held : registers.held = decoder.held.reverse
  /-- These are no whole line. -/
  unended : Ascii.newline ∉ registers.held

/-- Has the same come of handing something to both decoders? -/
structure Agrees {σ ε : Type} (taken : Taken σ ε) (fed : Fed σ ε) : Prop where
  /-- The receiver has answered the same. -/
  answer : taken.answer = fed.answer
  /-- It is the same afterwards. -/
  receiver : taken.receiver = fed.receiver
  /-- The registers show what the decoder has. -/
  tracks : Tracks taken.registers fed.decoder

variable {σ ε : Type} {decoder : Decoder} {taken : Taken σ ε} {fed : Fed σ ε}

/-- With no record being collected, all registers are cleared but the bytes that are held. -/
theorem Tracks.eq_of_idle {held : Bytes} (h : Tracks registers { held }) :
    registers = { held := registers.held } := by
  cases h.pending
  rfl

/-- Both decoders go on in the same way. -/
theorem Agrees.andThen (h : Agrees taken fed) {next : Registers → σ → Taken σ ε}
    {follow : Decoder → σ → Fed σ ε}
    (hnext : ∀ receiver, Agrees (next taken.registers receiver) (follow fed.decoder receiver)) :
    Agrees (taken.andThen next) (fed.andThen follow) := by
  cases hanswer : fed.answer with
  | error error =>
    rw [Fed.andThen_of_error hanswer, Taken.andThen, h.answer, hanswer]
    exact h
  | ok done =>
    have hlater := hnext fed.receiver
    rw [Fed.andThen_of_ok hanswer, Taken.andThen, h.answer, hanswer, h.receiver]
    exact ⟨hlater.answer, hlater.receiver, hlater.tracks⟩

variable (accept : σ → Item → Except ε Unit × σ) (receiver : σ)

/-- Handing on the record being collected clears its registers, whatever the receiver answers. -/
theorem Shows.flush_eq (h : Shows registers pending) :
    registers.flush accept receiver =
      ⟨(deliver accept (completed pending) receiver).1, { held := registers.held },
        (deliver accept (completed pending) receiver).2⟩ := by
  obtain ⟨hrecord, hcleared⟩ := h.takeRecord_eq
  rw [← hrecord, ← hcleared]
  rfl

theorem agrees_flush (h : Tracks registers decoder) :
    Agrees (registers.flush accept receiver) (decoder.flush accept receiver) := by
  rw [h.pending.flush_eq]
  exact ⟨rfl, rfl, .idle _, h.held, h.unended⟩

/-- A terminator comes behind the record being collected. -/
theorem Decoder.feedLine_of_terminator {line : Bytes} (h : Line.ofBytes line = .terminator)
    (decoder : Decoder) :
    decoder.feedLine accept receiver line =
      (decoder.flush accept receiver).andThen fun decoder receiver =>
        ⟨(deliver accept [.endOfSet] receiver).1, decoder,
          (deliver accept [.endOfSet] receiver).2, []⟩ := by
  have hstep : step decoder.pending line =
      ⟨completed decoder.pending ++ [.endOfSet], none, []⟩ := by
    rw [step, h]
  rcases hrecord : deliver accept (completed decoder.pending) receiver with ⟨error | done, later⟩
  · have hall := deliver_append_of_error accept _ [.endOfSet] hrecord
    simp only [feedLine, hstep, hall, Fed.andThen, flush, hrecord]
  · have hall := deliver_append accept _ [.endOfSet] hrecord
    simp only [feedLine, hstep, hall, Fed.andThen, flush, hrecord, Fed.behind, List.append_nil]
    rcases deliver accept [.endOfSet] later with ⟨error | done, last⟩ <;> rfl

/-- So does the record of a header. -/
theorem Decoder.feedLine_of_header {line key : Bytes} {base64 : Bool}
    (h : Line.ofBytes line = .header key base64) (decoder : Decoder) :
    decoder.feedLine accept receiver line =
      (decoder.flush accept receiver).andThen fun decoder receiver =>
        ⟨.ok (), { decoder with pending := some ⟨unescapeKey key, base64, []⟩ }, receiver,
          (badEscapes 0 key).map fun offset => .badEscape key offset⟩ := by
  have hstep : step decoder.pending line =
      ⟨completed decoder.pending, some ⟨unescapeKey key, base64, []⟩,
        (badEscapes 0 key).map fun offset => .badEscape key offset⟩ := by
    rw [step, h]
  rcases hrecord : deliver accept (completed decoder.pending) receiver with ⟨error | done, later⟩
  · simp only [feedLine, hstep, hrecord, Fed.andThen, flush]
  · simp only [feedLine, hstep, hrecord, Fed.andThen, flush, Fed.behind, List.nil_append]

/-- A line does to the registers what it does to the decoder. -/
theorem agrees_feedLine (h : Tracks registers decoder) (line : Bytes) :
    Agrees (registers.feedLine accept receiver line) (decoder.feedLine accept receiver line) := by
  have hflush := agrees_flush accept receiver h
  unfold Registers.feedLine
  cases hline : Line.ofBytes line with
  | terminator =>
    rw [Decoder.feedLine_of_terminator accept receiver hline]
    exact hflush.andThen fun later => ⟨rfl, rfl, hflush.tracks⟩
  | header key base64 =>
    rw [Decoder.feedLine_of_header accept receiver hline]
    refine hflush.andThen fun later => ⟨rfl, rfl, ?_, hflush.tracks.held, hflush.tracks.unended⟩
    rw [h.pending.flush_eq]
    cases base64 with
    | false => exact .text (some (unescapeKey key)) [] registers.held nofun
    | true => exact .base64 (unescapeKey key) [] false registers.held
  | value content =>
    obtain ⟨hpending, hitems, hheld⟩ := h.pending.takeValue content
    have hstep : step decoder.pending line = stepValue decoder.pending content := by
      rw [step, hline]
    have hnothing : deliver accept (step decoder.pending line).items receiver =
        (.ok (), receiver) := by
      rw [hstep, hitems]
      rfl
    rw [Decoder.feedLine_of_ok hnothing, hstep]
    exact ⟨rfl, rfl, hpending, hheld.trans h.held, hheld ▸ h.unended⟩

/-! ## Bytes -/

/-- The bytes that are held make no difference to the other registers. -/
theorem Shows.holding (h : Shows registers pending) (held : Bytes) :
    Shows { registers with held } pending := by
  cases h with
  | idle => exact .idle held
  | text key parts _ hkey => exact .text key parts held hkey
  | base64 key parts gotValue => exact .base64 key parts gotValue held

theorem Tracks.empty (h : Tracks registers decoder) :
    Tracks { registers with held := [] } { decoder with held := [] } where
  pending := h.pending.holding []
  held := rfl
  unended := List.not_mem_nil

/-- Bytes do to the registers what they do to the decoder, line by line. -/
theorem agrees_feed (h : Tracks registers decoder) (bytes : Bytes) :
    Agrees (registers.feed accept receiver bytes) (decoder.feed accept receiver bytes) := by
  fun_induction Registers.feed accept registers receiver bytes generalizing decoder with
  | case1 registers receiver bytes hnone =>
    have hnotMem := Bytes.newline_notMem_of_fromNewline_eq_nil hnone
    rw [Decoder.feed_of_notMem hnotMem]
    refine ⟨rfl, rfl, h.pending.holding _, ?_, ?_⟩
    · simp [Decoder.holding, h.held]
    · simp [h.unended, hnotMem]
  | case2 registers receiver bytes newline rest hsome ih =>
    have hbytes := Bytes.upToNewline_append_fromNewline bytes
    rw [hsome, Bytes.eq_newline_of_fromNewline_eq_cons hsome] at hbytes
    have hfed := agrees_feedLine accept receiver h.empty (registers.held ++ bytes.upToNewline)
    have hline := @Decoder.feed_append_newline _ _ accept _
      (Bytes.newline_notMem_upToNewline bytes) decoder receiver rest
    rw [hbytes, ← h.held] at hline
    rw [hline]
    refine hfed.andThen ?_
    intro later
    exact ih _ later hfed.tracks

/-- So does the end of a dump. -/
theorem agrees_finish (h : Tracks registers decoder) :
    Agrees (registers.finish accept receiver) (decoder.finish accept receiver) := by
  rw [Decoder.finish_eq, Registers.finish]
  have hlast : Agrees
      (if registers.held = [] then ⟨.ok (), registers, receiver⟩
        else { registers with held := [] }.feedLine accept receiver registers.held)
      (Decoder.feedLines accept (Decoder.heldLine decoder.held) { decoder with held := [] }
        receiver) := by
    by_cases hnone : decoder.held = []
    · have hempty : registers.held = [] := by simp [h.held, hnone]
      rw [if_pos hempty, Decoder.heldLine, if_pos hnone]
      exact ⟨rfl, rfl, h.pending, hempty, h.unended⟩
    · have hrest : registers.held ≠ [] := by simp [h.held, hnone]
      rw [if_neg hrest, Decoder.heldLine, if_neg hnone, Decoder.feedLines_singleton, ← h.held]
      exact agrees_feedLine accept receiver h.empty registers.held
  exact hlast.andThen fun later => agrees_flush accept later hlast.tracks

/-! ## After an item that was refused -/

/-- A line at which an item is refused leaves nothing but the bytes that were held in front of
it. -/
theorem Decoder.eq_of_feedLine_error {line : Bytes} {error : ε}
    (h : (decoder.feedLine accept receiver line).answer = .error error) :
    (decoder.feedLine accept receiver line).decoder = { held := decoder.held } := by
  rcases hdeliver : deliver accept (step decoder.pending line).items receiver with
    ⟨fault | done, later⟩
  · rw [feedLine_of_error hdeliver]
  · rw [feedLine_of_ok hdeliver] at h
    cases h

theorem Decoder.eq_of_feedLines_error {lines : List Bytes} {error : ε}
    (h : (feedLines accept lines decoder receiver).answer = .error error) :
    (feedLines accept lines decoder receiver).decoder = { held := decoder.held } := by
  induction lines generalizing decoder receiver with
  | nil => cases h
  | cons line lines ih =>
    obtain ⟨-, hheld, -⟩ := outcome_feedLine accept decoder receiver line
    rw [feedLines_cons] at h ⊢
    cases hanswer : (decoder.feedLine accept receiver line).answer with
    | error fault =>
      rw [Fed.andThen_of_error hanswer]
      exact eq_of_feedLine_error accept receiver hanswer
    | ok done =>
      rw [Fed.andThen_of_ok hanswer] at h ⊢
      rw [← hheld]
      exact ih _ h

/-- Bytes of which an item is refused leave nothing at all. -/
theorem Decoder.eq_of_feed_error {bytes : Bytes} {error : ε}
    (h : (decoder.feed accept receiver bytes).answer = .error error) :
    (decoder.feed accept receiver bytes).decoder = {} := by
  rw [feed_eq] at h ⊢
  cases hanswer : (feedLines accept (decoder.cut bytes).lines { decoder with held := [] }
      receiver).answer with
  | error fault =>
    rw [Fed.andThen_of_error hanswer]
    exact eq_of_feedLines_error accept receiver hanswer
  | ok done =>
    rw [Fed.andThen_of_ok hanswer] at h
    cases h

/-- The end of a dump leaves nothing, whether an item is refused or not. -/
theorem Decoder.eq_of_finish (decoder : Decoder) :
    (decoder.finish accept receiver).decoder = {} := by
  obtain ⟨-, hheld, -⟩ :=
    outcome_feedLines accept (heldLine decoder.held) { decoder with held := [] } receiver
  rw [finish_eq]
  cases hanswer : (feedLines accept (heldLine decoder.held) { decoder with held := [] }
      receiver).answer with
  | error fault =>
    rw [Fed.andThen_of_error hanswer]
    exact eq_of_feedLines_error accept receiver hanswer
  | ok done =>
    rw [Fed.andThen_of_ok hanswer]
    show Decoder.mk none _ = _
    rw [hheld]

/-! ## Any calls -/

/-- What both decoders become by any calls, whatever receivers they are given. -/
inductive Reached : Registers → Decoder → Prop
  | new : Reached {} {}
  | feed {registers : Registers} {decoder : Decoder} (h : Reached registers decoder) {σ ε : Type}
      (accept : σ → Item → Except ε Unit × σ) (receiver : σ) (bytes : Bytes) :
      Reached (registers.feed accept receiver bytes).registers
        (decoder.feed accept receiver bytes).decoder
  | feedLine {registers : Registers} {decoder : Decoder} (h : Reached registers decoder)
      {σ ε : Type} (accept : σ → Item → Except ε Unit × σ) (receiver : σ) (line : Bytes) :
      Reached (registers.feedLine accept receiver line).registers
        (decoder.feedLine accept receiver line).decoder
  | finish {registers : Registers} {decoder : Decoder} (h : Reached registers decoder)
      {σ ε : Type} (accept : σ → Item → Except ε Unit × σ) (receiver : σ) :
      Reached (registers.finish accept receiver).registers
        (decoder.finish accept receiver).decoder

/-- The registers show what the decoder has at any time. -/
theorem Reached.tracks (h : Reached registers decoder) : Tracks registers decoder := by
  induction h with
  | new => exact ⟨.idle [], rfl, List.not_mem_nil⟩
  | feed _ accept receiver bytes ih => exact (agrees_feed accept receiver ih bytes).tracks
  | feedLine _ accept receiver line ih => exact (agrees_feedLine accept receiver ih line).tracks
  | finish _ accept receiver ih => exact (agrees_finish accept receiver ih).tracks

/-- Are the registers consistent? -/
structure Registers.Consistent (registers : Registers) : Prop where
  /-- If no record is being collected, there is nothing in the registers of one. -/
  idle : registers.accumulating = false → registers.key = none ∧ registers.base64 = false ∧
    registers.gotValue = false ∧ registers.value = []
  /-- Only a header turns base64 on. -/
  keyed : registers.base64 = true → registers.key.isSome = true
  /-- What is held is no whole line. -/
  unended : Ascii.newline ∉ registers.held

theorem Tracks.consistent (h : Tracks registers decoder) : registers.Consistent := by
  have hshows := h.pending
  generalize decoder.pending = pending at hshows
  refine ⟨?_, ?_, h.unended⟩
  · intro hidle
    cases hshows with
    | idle => exact ⟨rfl, rfl, rfl, rfl⟩
    | text => cases hidle
    | base64 => cases hidle
  · intro hbase64
    cases hshows with
    | idle => cases hbase64
    | text => cases hbase64
    | base64 => rfl

/-- What a decoder that has been reached leaves when it is called again. -/
structure LeavesNothing (registers : Registers) (decoder : Decoder) : Prop where
  /-- The registers are consistent, and show what the decoder has. -/
  consistent : registers.Consistent ∧ Tracks registers decoder
  /-- Bytes are taken by both alike.  If an item of them is refused, both are as new. -/
  feed : ∀ {σ ε : Type} (accept : σ → Item → Except ε Unit × σ) (receiver : σ) (bytes : Bytes),
    Agrees (registers.feed accept receiver bytes) (decoder.feed accept receiver bytes) ∧
      ∀ error, (decoder.feed accept receiver bytes).answer = .error error →
        (registers.feed accept receiver bytes).registers = {} ∧
          (decoder.feed accept receiver bytes).decoder = {}
  /-- So is a line.  If an item of it is refused, only the bytes stay that were held. -/
  feedLine : ∀ {σ ε : Type} (accept : σ → Item → Except ε Unit × σ) (receiver : σ) (line : Bytes),
    Agrees (registers.feedLine accept receiver line) (decoder.feedLine accept receiver line) ∧
      ∀ error, (decoder.feedLine accept receiver line).answer = .error error →
        (registers.feedLine accept receiver line).registers = { held := registers.held } ∧
          (decoder.feedLine accept receiver line).decoder = { held := decoder.held }
  /-- So is the end of a dump.  Whatever is refused, both are as new then, and to finish again
  hands nothing on. -/
  finish : ∀ {σ ε : Type} (accept : σ → Item → Except ε Unit × σ) (receiver : σ),
    Agrees (registers.finish accept receiver) (decoder.finish accept receiver) ∧
      (registers.finish accept receiver).registers = {} ∧
      (decoder.finish accept receiver).decoder = {} ∧
      ∀ {τ δ : Type} (again : τ → Item → Except δ Unit × τ) (other : τ),
        (decoder.finish accept receiver).decoder.finish again other = ⟨.ok (), {}, other, []⟩

/-- A decoder is as good as new when a receiver has refused an item, and when it has finished. -/
theorem refused_as_new (h : Reached registers decoder) : LeavesNothing registers decoder := by
  have htracks := h.tracks
  refine ⟨⟨htracks.consistent, htracks⟩, ?_, ?_, ?_⟩
  · intro σ ε accept receiver bytes
    have hagrees := agrees_feed accept receiver htracks bytes
    refine ⟨hagrees, ?_⟩
    intro error herror
    have hdecoder := Decoder.eq_of_feed_error accept receiver herror
    have hlater := hagrees.tracks
    rw [hdecoder] at hlater
    exact ⟨hlater.eq_of_idle.trans (congrArg _ hlater.held), hdecoder⟩
  · intro σ ε accept receiver line
    have hagrees := agrees_feedLine accept receiver htracks line
    refine ⟨hagrees, ?_⟩
    intro error herror
    have hdecoder := Decoder.eq_of_feedLine_error accept receiver herror
    have hlater := hagrees.tracks
    rw [hdecoder] at hlater
    refine ⟨hlater.eq_of_idle.trans ?_, hdecoder⟩
    rw [hlater.held, htracks.held]
  · intro σ ε accept receiver
    have hagrees := agrees_finish accept receiver htracks
    have hdecoder := Decoder.eq_of_finish accept receiver decoder
    have hlater := hagrees.tracks
    rw [hdecoder] at hlater ⊢
    exact ⟨hagrees, hlater.eq_of_idle.trans (congrArg _ hlater.held), rfl, fun _ _ => rfl⟩

/-- With a record in base64 being collected, and a header behind it of which only a part has
come, the newline is fed that ends the header, and the receiver refuses the record. -/
theorem refused_as_new_base64 :
    let text := Bytes.ofText "@a base64\nQUI=\n@b"
    let registers := (Registers.feed (keepAll (ε := Unit)) {} [] text).registers
    let decoder := (Decoder.feed {} (keepAll (ε := Unit)) [] text).decoder
    let fed := decoder.feed (keepUpTo 0 ()) [] [Ascii.newline]
    Reached registers decoder ∧
      registers = ⟨true, some [0x61, 0x00], true, [0x41, 0x42], true, [0x40, 0x62]⟩ ∧
      fed.answer = .error () ∧
      (registers.feed (keepUpTo 0 ()) [] [Ascii.newline]).registers = {} ∧ fed.decoder = {} := by
  intro text registers decoder fed
  have hreached : Reached registers decoder := .feed .new keepAll [] text
  have herror : fed.answer = .error () := by decide +kernel
  exact ⟨hreached, by decide +kernel, herror, ((refused_as_new hreached).feed _ _ _).2 _ herror⟩

end Dump
end KeyTable
