import KeyTable.Proofs.Dump.Records

/-!
# Feeding a decoder

A decoder may be given a dump in one piece or in many.  This file says that this makes
no difference, neither to what the receiver is handed nor to what the decoder keeps.

Whatever is done with a decoder stops at the first item that the receiver refuses, so
that two things done one after the other are put together by `Fed.andThen`.

* `deliver_append`, `deliver_append_of_error` — items can be handed on in one go or in
  two.
* `outcome_feed`, `outcome_finish` — a decoder hands on what the complete lines bring
  about, and at the end what a last line and the record being collected do.
* `feed_append`, `feed_append_newline` — bytes can be fed in one piece or in two, and what
  is held becomes a line when a newline comes.
* `feedPieces_spec` — so they can be fed in any number of pieces, cut anywhere.
-/

namespace KeyTable
namespace Dump

variable {σ ε : Type} {accept : σ → Item → Except ε Unit × σ}

/-! ## Handing items on -/

theorem deliver_cons_of_ok {item : Item} {receiver later : σ}
    (h : accept receiver item = (.ok (), later)) (items : List Item) :
    deliver accept (item :: items) receiver = deliver accept items later := by
  rw [deliver, h]

theorem deliver_cons_of_error {item : Item} {receiver later : σ} {error : ε}
    (h : accept receiver item = (.error error, later)) (items : List Item) :
    deliver accept (item :: items) receiver = (.error error, later) := by
  rw [deliver, h]

theorem deliver_append (accept : σ → Item → Except ε Unit × σ) (items others : List Item)
    {receiver later : σ} (h : deliver accept items receiver = (.ok (), later)) :
    deliver accept (items ++ others) receiver = deliver accept others later := by
  induction items generalizing receiver with
  | nil =>
    cases h
    rfl
  | cons item items ih =>
    rw [List.cons_append, deliver]
    rw [deliver] at h
    cases haccept : accept receiver item with
    | mk answer next =>
      rw [haccept] at h
      cases answer with
      | error error => cases h
      | ok done => exact ih h

/-- Behind an item that was refused, no other is handed on. -/
theorem deliver_append_of_error (accept : σ → Item → Except ε Unit × σ)
    (items others : List Item) {receiver later : σ} {error : ε}
    (h : deliver accept items receiver = (.error error, later)) :
    deliver accept (items ++ others) receiver = (.error error, later) := by
  induction items generalizing receiver with
  | nil => cases h
  | cons item items ih =>
    rw [List.cons_append, deliver]
    rw [deliver] at h
    cases haccept : accept receiver item with
    | mk answer next =>
      rw [haccept] at h
      cases answer with
      | error other => exact h
      | ok done => exact ih h

/-- A receiver that keeps every item, in order. -/
def keepAll (taken : List Item) (item : Item) : Except ε Unit × List Item :=
  (.ok (), taken ++ [item])

/-- A receiver that keeps so many items and refuses the next. -/
def keepUpTo (limit : Nat) (error : ε) (taken : List Item) (item : Item) :
    Except ε Unit × List Item :=
  if taken.length < limit then (.ok (), taken ++ [item]) else (.error error, taken)

theorem deliver_keepAll (items taken : List Item) :
    deliver (keepAll (ε := ε)) items taken = (.ok (), taken ++ items) := by
  induction items generalizing taken with
  | nil => rw [deliver, List.append_nil]
  | cons item items ih =>
    rw [deliver_cons_of_ok rfl, ih, List.append_assoc, List.singleton_append]

/-- A receiver that stops taking items has the first of them. -/
theorem deliver_keepUpTo {limit : Nat} (error : ε) (items : List Item) {taken : List Item}
    (h : taken.length ≤ limit) :
    (deliver (keepUpTo limit error) items taken).2 = (taken ++ items).take limit := by
  induction items generalizing taken with
  | nil => rw [deliver, List.append_nil, List.take_of_length_le h]
  | cons item items ih =>
    by_cases hroom : taken.length < limit
    · have hlonger : (taken ++ [item]).length ≤ limit := by
        rw [List.length_append, List.length_singleton]
        exact hroom
      rw [deliver_cons_of_ok (if_pos hroom), ih hlonger, List.append_assoc, List.singleton_append]
    · have hfull : limit = taken.length := Nat.le_antisymm (Nat.le_of_not_lt hroom) h
      rw [deliver_cons_of_error (if_neg hroom), hfull, List.take_left]

/-! ## One thing after the other -/

namespace Fed

/-- The same, behind more that was worth knowing. -/
def behind (fed : Fed σ ε) (notices : List Notice) : Fed σ ε :=
  { fed with notices := notices ++ fed.notices }

/-- Goes on with the decoder, unless the receiver has refused an item. -/
def andThen (fed : Fed σ ε) (next : Decoder → σ → Fed σ ε) : Fed σ ε :=
  match fed.answer with
  | .error _ => fed
  | .ok () => (next fed.decoder fed.receiver).behind fed.notices

/-- What the receiver answered in the end, and what has become of it. -/
def outcome (fed : Fed σ ε) : Except ε Unit × σ := (fed.answer, fed.receiver)

variable {fed : Fed σ ε} {next : Decoder → σ → Fed σ ε}

theorem andThen_of_error {error : ε} (h : fed.answer = .error error) : fed.andThen next = fed := by
  unfold andThen
  rw [h]

theorem andThen_of_ok (h : fed.answer = .ok ()) :
    fed.andThen next = (next fed.decoder fed.receiver).behind fed.notices := by
  unfold andThen
  rw [h]

/-- It matters only how things go on from where they have come to. -/
theorem andThen_congr {other : Decoder → σ → Fed σ ε}
    (h : next fed.decoder fed.receiver = other fed.decoder fed.receiver) :
    fed.andThen next = fed.andThen other := by
  unfold andThen
  rw [h]

theorem behind_andThen (fed : Fed σ ε) (notices : List Notice) (next : Decoder → σ → Fed σ ε) :
    (fed.behind notices).andThen next = (fed.andThen next).behind notices := by
  cases hanswer : fed.answer with
  | error error =>
    rw [andThen_of_error hanswer]
    exact andThen_of_error hanswer
  | ok done =>
    have hbehind : (fed.behind notices).answer = .ok () := hanswer
    rw [andThen_of_ok hanswer, andThen_of_ok hbehind]
    simp only [behind, List.append_assoc]

theorem andThen_assoc (fed : Fed σ ε) (next last : Decoder → σ → Fed σ ε) :
    (fed.andThen next).andThen last =
      fed.andThen fun decoder receiver => (next decoder receiver).andThen last := by
  cases hanswer : fed.answer with
  | error error => rw [andThen_of_error hanswer, andThen_of_error hanswer, andThen_of_error hanswer]
  | ok done => rw [andThen_of_ok hanswer, andThen_of_ok hanswer, behind_andThen]

/-- What is handed on by one thing after the other. -/
theorem outcome_andThen {items others : List Item} {receiver : σ}
    (h : fed.outcome = deliver accept items receiver)
    (hnext : fed.answer = .ok () →
      (next fed.decoder fed.receiver).outcome = deliver accept others fed.receiver) :
    (fed.andThen next).outcome = deliver accept (items ++ others) receiver := by
  cases hanswer : fed.answer with
  | error error =>
    have hfirst : deliver accept items receiver = (.error error, fed.receiver) := by
      rw [← h, outcome, hanswer]
    rw [andThen_of_error hanswer, deliver_append_of_error accept items others hfirst, h, hfirst]
  | ok done =>
    have hfirst : deliver accept items receiver = (.ok (), fed.receiver) := by
      rw [← h, outcome, hanswer]
    rw [andThen_of_ok hanswer, deliver_append accept items others hfirst, ← hnext hanswer]
    rfl

end Fed

/-! ## Lines -/

namespace Decoder

theorem feedLines_cons (line : Bytes) (lines : List Bytes) (decoder : Decoder) (receiver : σ) :
    feedLines accept (line :: lines) decoder receiver =
      (decoder.feedLine accept receiver line).andThen (feedLines accept lines) := rfl

theorem feedLines_singleton (line : Bytes) (decoder : Decoder) (receiver : σ) :
    feedLines accept [line] decoder receiver = decoder.feedLine accept receiver line := by
  rw [feedLines_cons]
  generalize decoder.feedLine accept receiver line = fed
  cases hanswer : fed.answer with
  | error error => rw [Fed.andThen_of_error hanswer]
  | ok done => rw [Fed.andThen_of_ok hanswer, Fed.behind, feedLines, List.append_nil, ← hanswer]

/-- Lines can be taken in one go or in two. -/
theorem feedLines_append (lines others : List Bytes) (decoder : Decoder) (receiver : σ) :
    feedLines accept (lines ++ others) decoder receiver =
      (feedLines accept lines decoder receiver).andThen (feedLines accept others) := by
  induction lines generalizing decoder receiver with
  | nil => rfl
  | cons line lines ih =>
    rw [List.cons_append, feedLines_cons, feedLines_cons, Fed.andThen_assoc]
    exact Fed.andThen_congr (ih _ _)

theorem feedLine_of_ok {decoder : Decoder} {receiver later : σ} {line : Bytes}
    (h : deliver accept (step decoder.pending line).items receiver = (.ok (), later)) :
    decoder.feedLine accept receiver line =
      ⟨.ok (), { decoder with pending := (step decoder.pending line).pending }, later,
        (step decoder.pending line).notices⟩ := by
  simp only [feedLine, h]

theorem feedLine_of_error {decoder : Decoder} {receiver later : σ} {line : Bytes} {error : ε}
    (h : deliver accept (step decoder.pending line).items receiver = (.error error, later)) :
    decoder.feedLine accept receiver line =
      ⟨.error error, { decoder with pending := none }, later, []⟩ := by
  simp only [feedLine, h]

variable (accept) in
/-- What a decoder hands on when it takes a line, and what it is collecting behind it. -/
theorem outcome_feedLine (decoder : Decoder) (receiver : σ) (line : Bytes) :
    (decoder.feedLine accept receiver line).outcome =
        deliver accept (step decoder.pending line).items receiver ∧
      (decoder.feedLine accept receiver line).decoder.held = decoder.held ∧
      ((decoder.feedLine accept receiver line).answer = .ok () →
        (decoder.feedLine accept receiver line).decoder.pending =
          (step decoder.pending line).pending) := by
  rcases hdeliver : deliver accept (step decoder.pending line).items receiver with
    ⟨error | done, later⟩
  · rw [feedLine_of_error hdeliver]
    exact ⟨rfl, rfl, nofun⟩
  · rw [feedLine_of_ok hdeliver]
    exact ⟨rfl, rfl, fun _ => rfl⟩

variable (accept) in
/-- What a decoder hands on when it takes lines, and what it is collecting behind them. -/
theorem outcome_feedLines (lines : List Bytes) (decoder : Decoder) (receiver : σ) :
    (feedLines accept lines decoder receiver).outcome =
        deliver accept (scan decoder.pending lines).1 receiver ∧
      (feedLines accept lines decoder receiver).decoder.held = decoder.held ∧
      ((feedLines accept lines decoder receiver).answer = .ok () →
        (feedLines accept lines decoder receiver).decoder.pending =
          (scan decoder.pending lines).2) := by
  induction lines generalizing decoder receiver with
  | nil => exact ⟨rfl, rfl, fun _ => rfl⟩
  | cons line lines ih =>
    obtain ⟨houtcome, hheld, hpending⟩ := outcome_feedLine accept decoder receiver line
    rw [feedLines_cons, scan_cons]
    cases hanswer : (decoder.feedLine accept receiver line).answer with
    | error error =>
      refine ⟨Fed.outcome_andThen houtcome fun hok => ?_, ?_, ?_⟩
      · rw [hanswer] at hok
        cases hok
      · rw [Fed.andThen_of_error hanswer]
        exact hheld
      · rw [Fed.andThen_of_error hanswer, hanswer]
        exact nofun
    | ok done =>
      obtain ⟨hothers, hlater, hlast⟩ := ih (decoder.feedLine accept receiver line).decoder
        (decoder.feedLine accept receiver line).receiver
      rw [hpending hanswer] at hothers hlast
      refine ⟨Fed.outcome_andThen houtcome fun _ => hothers, ?_, ?_⟩
      · rw [Fed.andThen_of_ok hanswer]
        exact hlater.trans hheld
      · rw [Fed.andThen_of_ok hanswer]
        exact hlast

/-! ## Bytes -/

/-- The lines that are complete when more bytes have come behind those that are held, and
the bytes that are held then. -/
def cut (decoder : Decoder) (bytes : Bytes) : LineCut := LineCut.push { held := decoder.held } bytes

/-- Sets the bytes that are held. -/
def holding (held : Bytes) (decoder : Decoder) (receiver : σ) : Fed σ ε :=
  ⟨.ok (), { decoder with held }, receiver, []⟩

theorem andThen_holding (fed : Fed σ ε) (held : Bytes) :
    fed.andThen (holding held) =
      match fed.answer with
      | .error _ => fed
      | .ok () => { fed with decoder := { fed.decoder with held } } := by
  cases hanswer : fed.answer with
  | error error => rw [Fed.andThen_of_error hanswer]
  | ok done =>
    rw [Fed.andThen_of_ok hanswer, Fed.behind, holding, List.append_nil]

theorem holding_andThen (held : Bytes) (decoder : Decoder) (receiver : σ)
    (next : Decoder → σ → Fed σ ε) :
    (holding held decoder receiver).andThen next = next { decoder with held } receiver := rfl

theorem with_held_eq {decoder : Decoder} {held : Bytes} (h : decoder.held = held) :
    { decoder with held } = decoder := by
  rw [← h]

/-- To feed bytes is to take the complete lines, and to hold the rest. -/
theorem feed_eq (decoder : Decoder) (receiver : σ) (bytes : Bytes) :
    decoder.feed accept receiver bytes =
      (feedLines accept (decoder.cut bytes).lines { decoder with held := [] } receiver).andThen
        (holding (decoder.cut bytes).held) := by
  rw [andThen_holding]
  rfl

/-- Bytes can be fed in one piece or in two. -/
theorem feed_append (decoder : Decoder) (receiver : σ) (bytes more : Bytes) :
    decoder.feed accept receiver (bytes ++ more) =
      (decoder.feed accept receiver bytes).andThen
        fun decoder receiver => decoder.feed accept receiver more := by
  have hcut : decoder.cut (bytes ++ more) = (decoder.cut bytes).push more :=
    LineCut.push_append _ bytes more
  have hlater : (decoder.cut bytes).push more =
      ⟨(LineCut.push { held := (decoder.cut bytes).held } more).complete ++
          (decoder.cut bytes).complete,
        (LineCut.push { held := (decoder.cut bytes).held } more).held⟩ :=
    LineCut.push_eq _ more
  have hlines : (decoder.cut (bytes ++ more)).lines = (decoder.cut bytes).lines ++
      (LineCut.push { held := (decoder.cut bytes).held } more).lines := by
    rw [hcut, hlater, LineCut.lines, List.reverse_append]
    rfl
  rw [feed_eq, feed_eq, hlines, feedLines_append, Fed.andThen_assoc, Fed.andThen_assoc]
  refine Fed.andThen_congr ?_
  -- when the second piece comes, nothing is held but what is behind the first lines
  have hheld := (outcome_feedLines accept (decoder.cut bytes).lines
    { decoder with held := [] } receiver).2.1
  generalize feedLines accept (decoder.cut bytes).lines { decoder with held := [] } receiver = fed
    at hheld ⊢
  rw [holding_andThen, feed_eq, with_held_eq hheld, hcut, hlater]
  rfl

/-- Bytes without a newline are held. -/
theorem feed_of_notMem {bytes : Bytes} (h : Ascii.newline ∉ bytes) (decoder : Decoder)
    (receiver : σ) :
    decoder.feed accept receiver bytes = holding (bytes.reverse ++ decoder.held) decoder receiver := by
  rw [feed_eq, cut, LineCut.push_of_notMem h]
  rfl

theorem feed_newline (decoder : Decoder) (receiver : σ) :
    decoder.feed accept receiver [Ascii.newline] =
      feedLine { decoder with held := [] } accept receiver decoder.held.reverse := by
  have hcut : decoder.cut [Ascii.newline] = ⟨[decoder.held.reverse], []⟩ := rfl
  have hheld := (outcome_feedLine accept { decoder with held := [] } receiver
    decoder.held.reverse).2.1
  rw [feed_eq, hcut, LineCut.lines, List.reverse_singleton, feedLines_singleton, andThen_holding,
    with_held_eq hheld]
  split <;> rfl

/-- At a newline, what is held becomes a line together with the bytes in front of the newline,
and then the bytes behind it are fed. -/
theorem feed_append_newline {line : Bytes} (h : Ascii.newline ∉ line) (decoder : Decoder)
    (receiver : σ) (rest : Bytes) :
    decoder.feed accept receiver (line ++ Ascii.newline :: rest) =
      (feedLine { decoder with held := [] } accept receiver (decoder.held.reverse ++ line)).andThen
        fun decoder receiver => decoder.feed accept receiver rest := by
  rw [feed_append, feed_of_notMem h, holding_andThen, ← List.singleton_append, feed_append,
    feed_newline, List.reverse_append, List.reverse_reverse]

variable (accept) in
/-- What a decoder hands on when it is fed, what it is collecting then, and what it holds. -/
theorem outcome_feed (decoder : Decoder) (receiver : σ) (bytes : Bytes) :
    (decoder.feed accept receiver bytes).outcome =
        deliver accept (scan decoder.pending (decoder.cut bytes).lines).1 receiver ∧
      ((decoder.feed accept receiver bytes).answer = .ok () →
        (decoder.feed accept receiver bytes).decoder =
          ⟨(scan decoder.pending (decoder.cut bytes).lines).2, (decoder.cut bytes).held⟩) := by
  obtain ⟨houtcome, -, hpending⟩ := outcome_feedLines accept (decoder.cut bytes).lines
    { decoder with held := [] } receiver
  rw [feed_eq, ← List.append_nil (scan decoder.pending (decoder.cut bytes).lines).1]
  refine ⟨Fed.outcome_andThen houtcome fun _ => rfl, ?_⟩
  rw [andThen_holding]
  split
  · next error hanswer =>
    rw [hanswer]
    exact nofun
  · next hanswer =>
    intro _
    exact congrArg (Decoder.mk · (decoder.cut bytes).held) (hpending hanswer)

/-! ## The end of a dump -/

/-- The last line, if there is one that lacks its newline. -/
def heldLine (held : Bytes) : List Bytes := if held = [] then [] else [held.reverse]

theorem feedRest_eq (decoder : Decoder) (receiver : σ) :
    decoder.feedRest accept receiver =
      feedLines accept (heldLine decoder.held) { decoder with held := [] } receiver := by
  unfold feedRest heldLine
  split
  · next hnone => rw [feedLines, with_held_eq hnone]
  · next => rw [feedLines_singleton]

/-- Hands on the record being collected. -/
def flush (accept : σ → Item → Except ε Unit × σ) (decoder : Decoder) (receiver : σ) : Fed σ ε :=
  ⟨(deliver accept (completed decoder.pending) receiver).1, { decoder with pending := none },
    (deliver accept (completed decoder.pending) receiver).2, []⟩

/-- To finish is to take a last line, and then to hand on the record being collected. -/
theorem finish_eq (decoder : Decoder) (receiver : σ) :
    decoder.finish accept receiver =
      (feedLines accept (heldLine decoder.held) { decoder with held := [] } receiver).andThen
        (flush accept) := by
  rw [← feedRest_eq]
  unfold finish
  dsimp only
  cases hanswer : (decoder.feedRest accept receiver).answer with
  | error error => rw [Fed.andThen_of_error hanswer]
  | ok done => rw [Fed.andThen_of_ok hanswer, Fed.behind, flush, List.append_nil]

/-- What a decoder hands on at the end. -/
theorem outcome_finish (decoder : Decoder) (receiver : σ) :
    (decoder.finish accept receiver).outcome =
      deliver accept ((scan decoder.pending (heldLine decoder.held)).1 ++
        completed (scan decoder.pending (heldLine decoder.held)).2) receiver := by
  obtain ⟨houtcome, -, hpending⟩ := outcome_feedLines accept (heldLine decoder.held)
    { decoder with held := [] } receiver
  rw [finish_eq]
  refine Fed.outcome_andThen houtcome fun hanswer => ?_
  rw [← hpending hanswer]
  rfl

/-- What a decoder hands on of a whole dump. -/
theorem outcome_feed_finish (decoder : Decoder) (receiver : σ) (bytes : Bytes) :
    ((decoder.feed accept receiver bytes).andThen (finish · accept ·)).outcome =
      deliver accept
        ((scan decoder.pending ((decoder.cut bytes).lines ++ heldLine (decoder.cut bytes).held)).1 ++
          completed (scan decoder.pending
            ((decoder.cut bytes).lines ++ heldLine (decoder.cut bytes).held)).2) receiver := by
  obtain ⟨houtcome, hdecoder⟩ := outcome_feed accept decoder receiver bytes
  rw [scan_append, List.append_assoc]
  refine Fed.outcome_andThen houtcome fun hanswer => ?_
  rw [outcome_finish, hdecoder hanswer]

/-! ## Pieces -/

/-- Takes bytes in pieces, one after the other, up to one at which the receiver refuses an
item. -/
def feedPieces (accept : σ → Item → Except ε Unit × σ) : List Bytes → Decoder → σ → Fed σ ε
  | [], decoder, receiver => ⟨.ok (), decoder, receiver, []⟩
  | piece :: pieces, decoder, receiver =>
    (decoder.feed accept receiver piece).andThen (feedPieces accept pieces)

theorem feedPieces_eq (pieces : List Bytes) (decoder : Decoder) (receiver : σ) :
    feedPieces accept pieces decoder receiver = decoder.feed accept receiver pieces.flatten := by
  induction pieces generalizing decoder receiver with
  | nil => rfl
  | cons piece pieces ih =>
    rw [feedPieces, List.flatten_cons, feed_append]
    exact Fed.andThen_congr (ih _ _)

/-- Wherever a dump is cut into pieces, feeding them is feeding the dump: the receiver is
handed the same items and refuses the same one, the decoder keeps the same, and it hands on
the same at the end.  A receiver that refuses an item has been handed the same ones before:
the first of those that the dump holds. -/
theorem feedPieces_spec (pieces : List Bytes) (decoder : Decoder) (receiver : σ) (limit : Nat)
    (error : ε) :
    feedPieces accept pieces decoder receiver = decoder.feed accept receiver pieces.flatten ∧
      (feedPieces accept pieces decoder receiver).andThen (finish · accept ·) =
        (decoder.feed accept receiver pieces.flatten).andThen (finish · accept ·) ∧
      (feedPieces (keepUpTo limit error) pieces decoder []).receiver =
        (decoder.feed (keepAll (ε := ε)) [] pieces.flatten).receiver.take limit := by
  have hall := congrArg Prod.snd
    (outcome_feed (keepAll (ε := ε)) decoder [] pieces.flatten).1
  have hsome := congrArg Prod.snd
    (outcome_feed (keepUpTo limit error) decoder [] pieces.flatten).1
  rw [deliver_keepAll] at hall
  rw [deliver_keepUpTo error _ (Nat.zero_le _)] at hsome
  rw [feedPieces_eq, feedPieces_eq]
  exact ⟨rfl, rfl, hsome.trans (congrArg (List.take limit) hall).symm⟩

end Decoder

end Dump
end KeyTable
