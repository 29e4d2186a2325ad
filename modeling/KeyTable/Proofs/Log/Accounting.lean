import KeyTable.Proofs.Log.Whole

/-!
# Accounting for the bytes of a log file

A file may hold anything when a table is opened on it.  If anything is found in it
(`found`), its bytes are told apart into those that are kept and those that are not
(`Accounted`): what is kept is a header and intact frames, and what is not does not begin
with an intact frame.  A file that holds no more than the beginning of a header is no
exception: nothing of it is kept, and its header is written anew (`mended`).

* `found_ofFrames_append` — in a log that is damaged behind its frames, these are found.
* `accounted_of_found` — the bytes of a file are accounted for if anything is found in it.
* `Accounted.mended_eq` — what is left of a file that may be written is a whole log.
-/

namespace KeyTable
namespace Log

variable {bytes rest : Bytes} {frames others : List Frame} {recovery : Recovery}

/-! ## What is found -/

/-- Is this a header that was cut short? -/
def CutHeader (bytes : Bytes) : Prop := bytes <+: header ∧ bytes ≠ header

theorem isPartialHeader_iff (bytes : Bytes) : isPartialHeader bytes = true ↔ CutHeader bytes := by
  rw [isPartialHeader, Bool.and_eq_true, decide_eq_true_eq, List.isPrefixOf_iff_prefix, CutHeader,
    and_comm, ← length_header]
  refine and_congr_right fun hbegins => ?_
  constructor
  · rintro hlt rfl
    exact Nat.lt_irrefl _ hlt
  · intro hne
    exact Nat.lt_of_le_of_ne hbegins.length_le fun hlength => hne (hbegins.eq_of_length hlength)

instance (bytes : Bytes) : Decidable (CutHeader bytes) :=
  decidable_of_iff _ (isPartialHeader_iff bytes)

/-- What is found in a file that a table is opened on. -/
def found (bytes : Bytes) : Except Fault (List Change × Recovery) :=
  if CutHeader bytes then .ok ([], { discarded := bytes.length }) else replay bytes

theorem not_cutHeader_ofFrames_append (frames : List Frame) (rest : Bytes) :
    ¬ CutHeader (ofFrames frames ++ rest) := by
  rw [← isPartialHeader_iff, ofFrames, List.append_assoc, isPartialHeader_header_append]
  exact Bool.false_ne_true

/-- Intact frames are found in front of what does not begin with one. -/
theorem found_ofFrames_append (h : ∀ frame ∈ frames, frame.Intact)
    (hrest : decodeFrame? rest = none) :
    found (ofFrames frames ++ rest) =
      .ok (frames.map Frame.change,
        { applied := frames.length
          validLength := (ofFrames frames).length
          discarded := rest.length }) := by
  have hbytes : ofFrames frames ++ rest = header ++ (joined frames ++ rest) := by
    rw [ofFrames, List.append_assoc]
  have hwhole := not_cutHeader_ofFrames_append frames rest
  have hdecode := decodeFrames_joined_append h rest
  rw [decodeFrames_of_none hrest, List.append_nil] at hdecode
  have hvalid : (header ++ (joined frames ++ rest)).length - rest.length =
      (ofFrames frames).length := by
    rw [← hbytes, List.length_append, Nat.add_sub_cancel]
  rw [found, if_neg hwhole, hbytes, replay_header_append, hdecode, hvalid, List.length_map]

/-! ## What is kept of it -/

/-- Do these frames, one behind the other, reach from the header up to a length? -/
structure Tiles (bytes : Bytes) (length : Nat) (frames : List Frame) : Prop where
  /-- Every frame is intact. -/
  intact : ∀ frame ∈ frames, frame.Intact
  /-- They are all that is there behind the header. -/
  joined : (bytes.take length).drop headerSize = joined frames

/-- There is one way at most to tell frames apart, as far as their changes go. -/
theorem Tiles.changes_unique {length : Nat} (h : Tiles bytes length frames)
    (hothers : Tiles bytes length others) :
    others.map Frame.change = frames.map Frame.change := by
  have hdecode := decodeFrames_joined h.intact
  rw [← h.joined, hothers.joined, decodeFrames_joined hothers.intact] at hdecode
  exact congrArg Prod.fst hdecode

/-- There is no frame where no byte is kept. -/
theorem Tiles.eq_nil (h : Tiles bytes 0 frames) : frames = [] := by
  have hjoined := h.joined
  rw [List.take_zero, List.drop_nil] at hjoined
  cases frames with
  | nil => rfl
  | cons frame frames =>
    have hpos := (h.intact frame List.mem_cons_self).length_pos
    have hlength := congrArg List.length hjoined
    rw [joined_cons, List.length_append, List.length_nil] at hlength
    omega

/-- How the bytes of a file are accounted for. -/
structure Accounted (bytes : Bytes) (frames : List Frame) (recovery : Recovery) : Prop where
  /-- The frames are those that are kept. -/
  tiles : Tiles bytes recovery.validLength frames
  /-- Each of them is applied. -/
  applied : recovery.applied = frames.length
  /-- Every byte is kept or discarded. -/
  measured : recovery.validLength + recovery.discarded = bytes.length
  /-- Nothing is kept of a header that was cut short. -/
  cut : CutHeader bytes → recovery.validLength = 0
  /-- Any other file opens with the header, which is kept. -/
  whole : ¬ CutHeader bytes → header <+: bytes.take recovery.validLength
  /-- What is discarded does not begin with an intact frame. -/
  damaged : decodeFrame? (bytes.drop recovery.validLength) = none
  /-- Nothing has been cut off yet. -/
  untruncated : recovery.truncated = false

/-- Of a header that was cut short, every byte is discarded. -/
theorem accounted_cutHeader (h : CutHeader bytes) :
    Accounted bytes [] { discarded := bytes.length } where
  tiles := ⟨nofun, rfl⟩
  applied := rfl
  measured := Nat.zero_add _
  cut _ := rfl
  whole hwhole := absurd h hwhole
  damaged := by
    have hshort := (isPartialHeader_iff bytes).mpr h
    rw [isPartialHeader, Bool.and_eq_true, decide_eq_true_eq, headerSize] at hshort
    exact decodeFrame?_of_lt (Nat.lt_trans hshort.1 (by decide))
  untruncated := rfl

/-- Of a log, the frames are kept in front of what does not begin with one. -/
theorem accounted_ofFrames_append (h : ∀ frame ∈ frames, frame.Intact)
    (hrest : decodeFrame? rest = none) :
    Accounted (ofFrames frames ++ rest) frames
      { applied := frames.length
        validLength := (ofFrames frames).length
        discarded := rest.length } := by
  have hkept : (ofFrames frames ++ rest).take (ofFrames frames).length = ofFrames frames :=
    List.take_left
  have hdiscarded : (ofFrames frames ++ rest).drop (ofFrames frames).length = rest :=
    List.drop_left
  constructor
  case tiles =>
    refine ⟨h, ?_⟩
    rw [hkept]
    exact List.drop_left' length_header
  case applied => rfl
  case measured => exact List.length_append.symm
  case cut => exact fun hcut => absurd hcut (not_cutHeader_ofFrames_append frames rest)
  case whole =>
    intro _
    rw [hkept]
    exact List.prefix_append header _
  case damaged =>
    rw [hdiscarded]
    exact hrest
  case untruncated => rfl

/-- The bytes of a file are accounted for if anything is found in it. -/
theorem accounted_of_found {changes : List Change} (h : found bytes = .ok (changes, recovery)) :
    ∃ frames, Accounted bytes frames recovery ∧ changes = frames.map Frame.change := by
  by_cases hcut : CutHeader bytes
  · rw [found, if_pos hcut] at h
    cases h
    exact ⟨[], accounted_cutHeader hcut, rfl⟩
  · have hreplay := h
    rw [found, if_neg hcut] at hreplay
    obtain ⟨body, rfl⟩ := exists_body_of_replay hreplay
    obtain ⟨frames, hintact, hbody, -⟩ := exists_frames body
    have hdamaged := decodeFrame?_decodeFrames body
    have hbytes : header ++ body = ofFrames frames ++ (decodeFrames body).2 := by
      rw [ofFrames, List.append_assoc, ← hbody]
    rw [hbytes, found_ofFrames_append hintact hdamaged] at h
    cases h
    rw [hbytes]
    exact ⟨frames, accounted_ofFrames_append hintact hdamaged, rfl⟩

/-- What a file holds once it was opened for writing, if so many bytes of it are kept: a
header that was cut short is written anew. -/
def mended (bytes : Bytes) (length : Nat) : Bytes :=
  if CutHeader bytes then header else bytes.take length

theorem Accounted.eq_nil_of_cut (h : Accounted bytes frames recovery) (hcut : CutHeader bytes) :
    frames = [] := by
  have htiles := h.tiles
  rw [h.cut hcut] at htiles
  exact htiles.eq_nil

/-- What is kept is the log of the frames that were found. -/
theorem Accounted.mended_eq (h : Accounted bytes frames recovery) :
    mended bytes recovery.validLength = ofFrames frames := by
  unfold mended
  split
  · next hcut => rw [h.eq_nil_of_cut hcut, ofFrames, joined_nil, List.append_nil]
  · next hwhole =>
    have hjoined := h.tiles.joined
    obtain ⟨body, hbody⟩ := h.whole hwhole
    rw [← hbody, List.drop_left' length_header] at hjoined
    rw [← hbody, hjoined, ofFrames]

end Log
end KeyTable
