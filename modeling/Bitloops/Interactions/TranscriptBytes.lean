import Bitloops.Foundation.Utf8Lossy
import Bitloops.Interactions.TranscriptFragment

/-!
# Transcripts that grow byte by byte

A turn may end at any moment while the agent appends to its transcript, also inside a line or a
character.  The fragment up to that moment and the one from there on are cut at the position that
was counted then.  `tiles_iff` says when the two give back the transcript.
-/

namespace Bitloops
namespace Interactions

open Utf8Lossy

/-- What `serde_json` makes of the bytes of a transcript. -/
structure ByteCodec where
  /-- The items of `messages`, where the transcript is an object with such an array. -/
  messages : List UInt8 → Option (List String)
  /-- The document with other `messages`. -/
  withMessages : List UInt8 → List String → String
  /-- An empty text is no JSON. -/
  messages_nil : messages [] = none
  /-- A document with a part of its messages is one with these messages. -/
  messages_withMessages : ∀ data found part, messages data = some found → part <:+: found →
    messages (encode (withMessages data part).toList) = some part
  /-- Documents are written in one line. -/
  newline_not_mem : ∀ data found part, messages data = some found → part <:+: found →
    '\n' ∉ (withMessages data part).toList
  /-- Only blanks follow a document. -/
  messages_append : ∀ data rest found found', messages data = some found →
    messages (data ++ rest) = some found' → found' = found
  /-- What begins or continues a document is a document if its text is one. -/
  messages_decode : ∀ data document, (messages document).isSome →
    data <+: document ∨ document <+: data → messages (encode (decode data)) = messages data

variable (codec : ByteCodec)

/-- `transcript_position_from_bytes`. -/
def transcriptPositionFromBytes (data : List UInt8) : ℕ :=
  if data = [] then 0
  else
    match codec.messages data with
    | some messages => messages.length
    | none => (splitInclusive (decode data)).length

/-- `transcript_fragment_from_bytes`. -/
def transcriptFragmentFromBytes (data : List UInt8) (startOffset endOffset : ℕ) : String :=
  if startOffset ≥ endOffset then ""
  else
    match codec.messages data with
    | some messages =>
      if startOffset ≥ messages.length then ""
      else codec.withMessages data (sliceBetween messages startOffset endOffset)
    | none =>
      let lines := splitInclusive (decode data)
      if startOffset ≥ lines.length then ""
      else String.ofList (sliceBetween lines startOffset endOffset).flatten

/-- The messages of a fragment; an empty one has none. -/
def fragmentMessages (fragment : String) : List String :=
  (codec.messages (encode fragment.toList)).getD []

/-- The fragment at the end of the transcript `data`, and the one from there on after `rest` was
appended, give back the transcript: its messages if it is a document, and otherwise its text. -/
def Tiles (data rest : List UInt8) : Prop :=
  let cut := transcriptPositionFromBytes codec data
  let earlier := transcriptFragmentFromBytes codec data 0 cut
  let later := transcriptFragmentFromBytes codec (data ++ rest) cut
    (transcriptPositionFromBytes codec (data ++ rest))
  match codec.messages (data ++ rest) with
  | some messages => fragmentMessages codec earlier ++ fragmentMessages codec later = messages
  | none => earlier.toList ++ later.toList = decode (data ++ rest)

/-- The moment is one between lines or between messages. -/
def CutsBetween (data rest : List UInt8) : Prop :=
  match codec.messages (data ++ rest), codec.messages data with
  | none, none =>
    data = [] ∨ data.getLast? = some 0x0A ∨ decode (data ++ rest) = decode data
  | none, some messages => messages = []
  | some messages, none => data = [] ∨ messages = []
  | some _, some _ => True

/-! ## Lines -/

section Lines

variable {front text first : List Char} {lines : List (List Char)}

theorem flatten_splitInclusive (text : List Char) : (splitInclusive text).flatten = text := by
  induction text with
  | nil => rfl
  | cons c text ih =>
    rw [splitInclusive]
    split_ifs
    · rw [List.flatten_cons, ih]
      rfl
    · cases hlines : splitInclusive text with
      | nil =>
        rw [hlines] at ih
        simp [← ih]
      | cons line lines =>
        rw [hlines] at ih
        simp [← ih]

theorem splitInclusive_eq_nil_iff : splitInclusive text = [] ↔ text = [] := by
  constructor
  · intro h
    have hflatten := flatten_splitInclusive text
    rw [h] at hflatten
    exact hflatten.symm
  · rintro rfl
    rfl

/-- Every line but the last one has a line break. -/
theorem newline_mem_first (h : splitInclusive text = first :: lines) (hlines : lines ≠ []) :
    '\n' ∈ first := by
  induction text generalizing first lines with
  | nil => exact nomatch h
  | cons c text ih =>
    rw [splitInclusive] at h
    split_ifs at h with hc
    · obtain ⟨rfl, -⟩ := List.cons.inj h
      exact hc ▸ List.mem_singleton_self c
    · cases hrest : splitInclusive text with
      | nil =>
        rw [hrest] at h
        exact absurd (List.cons.inj h).2.symm hlines
      | cons line rest =>
        rw [hrest] at h
        obtain ⟨rfl, rfl⟩ := List.cons.inj h
        exact List.mem_cons_of_mem _ (ih hrest hlines)

theorem splitInclusive_of_newline_not_mem (h : '\n' ∉ text) (hne : text ≠ []) :
    splitInclusive text = [text] := by
  obtain ⟨first, lines, hlines⟩ :=
    List.exists_cons_of_ne_nil (mt splitInclusive_eq_nil_iff.mp hne)
  have hflatten := flatten_splitInclusive text
  rw [hlines, List.flatten_cons] at hflatten
  have hnil : lines = [] := by
    by_contra hcons
    exact h (hflatten ▸ List.mem_append_left _ (newline_mem_first hlines hcons))
  rw [hnil, List.flatten_nil, List.append_nil] at hflatten
  rw [hlines, hnil, hflatten]

/-- Whole lines are split off a text. -/
theorem splitInclusive_append_lines (h : front = [] ∨ front.getLast? = some '\n') :
    splitInclusive (front ++ text) = splitInclusive front ++ splitInclusive text := by
  induction front with
  | nil => rfl
  | cons c front ih =>
    rw [List.cons_append, splitInclusive, splitInclusive]
    split_ifs with hc
    · rw [List.cons_append, ih]
      cases front with
      | nil => exact .inl rfl
      | cons d front => exact .inr (by simpa using h)
    · cases front with
      | nil =>
        rcases h with h | h
        · cases h
        · exact absurd (Option.some.inj h) hc
      | cons d front =>
        have hlast : (d :: front).getLast? = some '\n' := by simpa using h
        rw [ih (.inr hlast)]
        obtain ⟨line, lines, hlines⟩ := List.exists_cons_of_ne_nil
          (mt splitInclusive_eq_nil_iff.mp (List.cons_ne_nil d front))
        rw [hlines]
        rfl

end Lines

/-! ## Bytes -/

section Bytes

variable {data front part rest : List UInt8}

/-- The bytes are whole lines. -/
def EndsLine (data : List UInt8) : Prop := data = [] ∨ data.getLast? = some 0x0A

/-- Whole lines and the beginning of another one. -/
theorem exists_lines (data : List UInt8) :
    ∃ front part, data = front ++ part ∧ EndsLine front ∧ 0x0A ∉ part := by
  induction data with
  | nil => exact ⟨[], [], rfl, .inl rfl, List.not_mem_nil⟩
  | cons b data ih =>
    obtain ⟨front, part, rfl, hfront, hpart⟩ := ih
    cases front with
    | cons c front =>
      refine ⟨b :: c :: front, part, rfl, .inr ?_, hpart⟩
      rcases hfront with hfront | hfront
      · exact nomatch hfront
      · simpa using hfront
    | nil =>
      by_cases hb : b = 0x0A
      · exact ⟨[b], part, rfl, .inr (congrArg some hb), hpart⟩
      · refine ⟨[], b :: part, rfl, .inl rfl, fun hmem => ?_⟩
        rcases List.mem_cons.mp hmem with heq | hmem
        · exact hb heq.symm
        · exact hpart hmem

theorem decode_append_lines (h : EndsLine front) :
    decode (front ++ rest) = decode front ++ decode rest := by
  rcases h with rfl | h
  · rfl
  · obtain ⟨body, rfl⟩ := List.getLast?_eq_some_iff.mp h
    rw [List.append_assoc, List.singleton_append, decode_append_newline, decode_append_newline]
    simp [decode, decodeFrom, State.flush]

theorem getLast?_decode (h : EndsLine front) :
    decode front = [] ∨ (decode front).getLast? = some '\n' := by
  rcases h with rfl | h
  · exact .inl rfl
  · obtain ⟨body, rfl⟩ := List.getLast?_eq_some_iff.mp h
    rw [decode_append_newline]
    exact .inr (by simp [decode, decodeFrom, State.flush])

/-- The lines of whole lines and what follows. -/
theorem splitInclusive_decode_append (h : EndsLine front) :
    splitInclusive (decode (front ++ rest)) =
      splitInclusive (decode front) ++ splitInclusive (decode rest) := by
  rw [decode_append_lines h, splitInclusive_append_lines (getLast?_decode h)]

end Bytes

/-! ## Positions and fragments -/

section Fragments

variable {codec} {data rest : List UInt8} {found : List String} {start : ℕ}

theorem positionFromBytes_lines (h : codec.messages data = none) :
    transcriptPositionFromBytes codec data = (splitInclusive (decode data)).length := by
  unfold transcriptPositionFromBytes
  split_ifs with hnil
  · rw [hnil]
    rfl
  · rw [h]

theorem fragmentFromBytes_lines (h : codec.messages data = none) :
    (transcriptFragmentFromBytes codec data start
      (transcriptPositionFromBytes codec data)).toList =
        ((splitInclusive (decode data)).drop start).flatten := by
  have hnil : start ≥ (splitInclusive (decode data)).length →
      (splitInclusive (decode data)).drop start = [] := List.drop_eq_nil_of_le
  unfold transcriptFragmentFromBytes
  rw [positionFromBytes_lines h, h]
  dsimp only
  split_ifs with hstart
  · rw [hnil hstart]
    rfl
  · rw [sliceBetween_length, String.toList_ofList]

theorem ne_nil_of_messages (h : codec.messages data = some found) : data ≠ [] := by
  rintro rfl
  exact nomatch codec.messages_nil.symm.trans h

theorem positionFromBytes_document (h : codec.messages data = some found) :
    transcriptPositionFromBytes codec data = found.length := by
  rw [transcriptPositionFromBytes, if_neg (ne_nil_of_messages h), h]

/-- The rest of a document is one with the messages from there on, if there are any. -/
theorem fragmentFromBytes_document (h : codec.messages data = some found) :
    transcriptFragmentFromBytes codec data start (transcriptPositionFromBytes codec data) =
      if start ≥ found.length then "" else codec.withMessages data (found.drop start) := by
  unfold transcriptFragmentFromBytes
  rw [positionFromBytes_document h, h]
  dsimp only
  split_ifs
  · rfl
  · rw [sliceBetween_length]

theorem fragmentMessages_document (h : codec.messages data = some found) :
    fragmentMessages codec
      (transcriptFragmentFromBytes codec data start (transcriptPositionFromBytes codec data)) =
        found.drop start := by
  rw [fragmentFromBytes_document h]
  split_ifs with hstart
  · rw [List.drop_eq_nil_of_le hstart, fragmentMessages]
    show (codec.messages []).getD [] = []
    rw [codec.messages_nil, Option.getD_none]
  · rw [fragmentMessages, codec.messages_withMessages data found _ h (List.drop_suffix _ _).isInfix,
      Option.getD_some]

end Fragments

/-! ## When the fragments tile the transcript -/

section Tiling

variable {codec} {data rest : List UInt8} {found : List String}

/-- Lines that grow: the cut must lie between two lines, or nothing is added to the text. -/
theorem tiles_lines_iff (hdata : codec.messages data = none)
    (hall : codec.messages (data ++ rest) = none) :
    Tiles codec data rest ↔ data = [] ∨ data.getLast? = some 0x0A ∨
      decode (data ++ rest) = decode data := by
  rw [Tiles, hall]
  dsimp only
  rw [fragmentFromBytes_lines hdata, fragmentFromBytes_lines hall, List.drop_zero,
    flatten_splitInclusive, positionFromBytes_lines hdata]
  obtain ⟨front, part, rfl, hfront, hpart⟩ := exists_lines data
  rw [List.append_assoc, splitInclusive_decode_append hfront, splitInclusive_decode_append hfront]
  cases part with
  | nil =>
    have hends : front ++ [] = [] ∨ (front ++ []).getLast? = some 0x0A ∨
        decode (front ++ ([] ++ rest)) = decode (front ++ []) := by
      rw [List.append_nil]
      rcases hfront with hnil | hlast
      · exact .inl hnil
      · exact .inr (.inl hlast)
    refine iff_of_true ?_ hends
    rw [List.nil_append, List.append_nil, decode_append_lines hfront]
    show _ ++ (List.drop (_ ++ splitInclusive []).length _).flatten = _
    rw [splitInclusive, List.append_nil, List.drop_left, flatten_splitInclusive]
  | cons b part =>
    -- the line at the cut is counted, and so the next fragment begins after it
    have hne : decode (b :: part) ≠ [] := decode_ne_nil (List.cons_ne_nil _ _)
    have hline : splitInclusive (decode (b :: part)) = [decode (b :: part)] :=
      splitInclusive_of_newline_not_mem (newline_not_mem_decode hpart) hne
    have hnotends : ¬ (front ++ b :: part = [] ∨
        (front ++ b :: part).getLast? = some 0x0A) := by
      rintro (hnil | hlast)
      · simp at hnil
      · rw [List.getLast?_append_of_ne_nil _ (List.cons_ne_nil _ _)] at hlast
        exact hpart (List.mem_of_getLast? hlast)
    obtain ⟨first, lines, hlines⟩ := List.exists_cons_of_ne_nil
      (mt splitInclusive_eq_nil_iff.mp (decode_ne_nil (List.cons_ne_nil b (part ++ rest))))
    have hflatten := flatten_splitInclusive (decode (b :: (part ++ rest)))
    rw [hlines, List.flatten_cons] at hflatten
    rw [← or_assoc, or_iff_right hnotends, List.cons_append, hline, hlines,
      decode_append_lines hfront, decode_append_lines hfront, List.length_append,
      List.drop_append, ← hflatten]
    simp only [List.length_singleton, List.append_assoc, List.append_cancel_left_eq]
    rw [List.drop_eq_nil_of_le (Nat.le_succ _), List.nil_append, Nat.add_sub_cancel_left,
      List.drop_succ_cons, List.drop_zero]
    have honly : '\n' ∉ first → lines = [] := fun hmem => by
      by_contra hcons
      exact hmem (newline_mem_first hlines hcons)
    have hnewline := newline_not_mem_decode hpart
    constructor
    · intro h
      have hfirst : decode (b :: part) = first := List.append_cancel_right h
      rw [honly (hfirst ▸ hnewline), List.flatten_nil, List.append_nil, hfirst]
    · intro h
      rw [← h] at hnewline
      rw [honly fun hmem => hnewline (List.mem_append_left _ hmem), List.flatten_nil,
        List.append_nil] at h ⊢
      rw [← h, List.append_nil]

/-- A document to which something else than messages is appended must have had none. -/
theorem tiles_afterDocument_iff (hdata : codec.messages data = some found)
    (hall : codec.messages (data ++ rest) = none) :
    Tiles codec data rest ↔ found = [] := by
  rw [Tiles, hall]
  dsimp only
  rw [fragmentFromBytes_document hdata, fragmentFromBytes_lines hall,
    positionFromBytes_document hdata, List.drop_zero]
  cases found with
  | nil =>
    refine iff_of_true ?_ rfl
    have hstart : 0 ≥ ([] : List String).length := Nat.le_refl 0
    rw [if_pos hstart, List.length_nil, List.drop_zero, flatten_splitInclusive]
    rfl
  | cons message found =>
    refine iff_of_false ?_ (List.cons_ne_nil _ _)
    have hstart : ¬ 0 ≥ (message :: found).length := Nat.not_succ_le_zero _
    rw [if_neg hstart, List.length_cons]
    intro h
    -- the document is one line, and so it would be the whole transcript
    have hnewline := codec.newline_not_mem data _ _ hdata List.infix_rfl
    have hdocument := codec.messages_withMessages data _ _ hdata List.infix_rfl
    obtain ⟨first, lines, hlines⟩ := List.exists_cons_of_ne_nil
      (mt splitInclusive_eq_nil_iff.mp (decode_ne_nil (List.append_ne_nil_of_left_ne_nil
        (ne_nil_of_messages hdata) rest)))
    have hflatten := flatten_splitInclusive (decode (data ++ rest))
    rw [hlines, List.flatten_cons] at hflatten
    rw [hlines, List.drop_succ_cons, ← hflatten] at h
    have hsplit : lines.flatten =
        (lines.take found.length).flatten ++ (lines.drop found.length).flatten := by
      rw [← List.flatten_append, List.take_append_drop]
    rw [hsplit, ← List.append_assoc] at h
    have hfirst := List.append_cancel_right h
    have hnil : lines = [] := by
      by_contra hcons
      rw [hfirst] at hnewline
      exact hnewline (List.mem_append_left _ (newline_mem_first hlines hcons))
    rw [hnil, List.flatten_nil, List.append_nil] at hflatten
    rw [hnil, List.take_nil, List.flatten_nil, List.append_nil, hflatten] at hfirst
    have hdecode := codec.messages_decode (data ++ rest) data (by rw [hdata]; rfl)
      (.inr (List.prefix_append data rest))
    rw [← hfirst, hdocument, hall] at hdecode
    exact nomatch hdecode

/-- The beginning of a document is cut in lines, the document in messages. -/
theorem tiles_beforeDocument_iff (hdata : codec.messages data = none)
    (hall : codec.messages (data ++ rest) = some found) :
    Tiles codec data rest ↔ data = [] ∨ found = [] := by
  have hearlier : fragmentMessages codec
      (transcriptFragmentFromBytes codec data 0 (transcriptPositionFromBytes codec data)) = [] := by
    have hdecode := codec.messages_decode data (data ++ rest) (by rw [hall]; rfl)
      (.inl (List.prefix_append data rest))
    rw [fragmentMessages, fragmentFromBytes_lines hdata, List.drop_zero, flatten_splitInclusive,
      hdecode, hdata, Option.getD_none]
  rw [Tiles, hall]
  dsimp only
  rw [hearlier, List.nil_append, fragmentMessages_document hall, positionFromBytes_lines hdata]
  constructor
  · intro h
    have hlength := congrArg List.length h
    rw [List.length_drop] at hlength
    by_contra hne
    obtain ⟨hdata, hfound⟩ := not_or.mp hne
    have hlines := List.length_pos_of_ne_nil (mt splitInclusive_eq_nil_iff.mp (decode_ne_nil hdata))
    have hmessages := List.length_pos_of_ne_nil hfound
    omega
  · rintro (rfl | rfl)
    · rfl
    · exact List.drop_nil

theorem tiles_documents (hdata : codec.messages data = some found) {found' : List String}
    (hall : codec.messages (data ++ rest) = some found') : Tiles codec data rest := by
  obtain rfl := codec.messages_append data rest found found' hdata hall
  rw [Tiles, hall]
  dsimp only
  rw [fragmentMessages_document hdata, fragmentMessages_document hall,
    positionFromBytes_document hdata, List.drop_zero, List.drop_length, List.append_nil]

/-- **The fragments tile the transcript exactly at the cuts between lines and messages.** -/
theorem tiles_iff_cutsBetween (data rest : List UInt8) :
    Tiles codec data rest ↔ CutsBetween codec data rest := by
  unfold CutsBetween
  cases hall : codec.messages (data ++ rest) with
  | none =>
    cases hdata : codec.messages data with
    | none => exact tiles_lines_iff hdata hall
    | some found => exact tiles_afterDocument_iff hdata hall
  | some found =>
    cases hdata : codec.messages data with
    | none => exact tiles_beforeDocument_iff hdata hall
    | some found' => exact iff_of_true (tiles_documents hdata hall) trivial

end Tiling

/-! ## Texts -/

/-- The codec on texts. -/
def ByteCodec.toDocumentCodec : DocumentCodec where
  messages text := codec.messages (encode text.toList)
  withMessages text := codec.withMessages (encode text.toList)

theorem encode_eq_nil_iff {text : String} : encode text.toList = [] ↔ text = "" := by
  constructor
  · intro h
    have hdecode := decode_encode text.toList
    rw [h] at hdecode
    exact String.toList_eq_nil_iff.mp hdecode.symm
  · rintro rfl
    rfl

/-- On the bytes of a text the functions are those on the text. -/
theorem transcriptPositionFromBytes_encode (text : String) :
    transcriptPositionFromBytes codec (encode text.toList) =
      transcriptPosition codec.toDocumentCodec text := by
  unfold transcriptPositionFromBytes transcriptPosition
  simp only [encode_eq_nil_iff, decode_encode]
  rfl

theorem transcriptFragmentFromBytes_encode (text : String) (startOffset endOffset : ℕ) :
    transcriptFragmentFromBytes codec (encode text.toList) startOffset endOffset =
      transcriptFragment codec.toDocumentCodec text startOffset endOffset := by
  unfold transcriptFragmentFromBytes transcriptFragment
  simp only [decode_encode]
  rfl

/-- Transcripts of lines. -/
def byteLines : ByteCodec where
  messages _ := none
  withMessages _ _ := ""
  messages_nil := rfl
  messages_withMessages _ _ _ h := nomatch h
  newline_not_mem _ _ _ h := nomatch h
  messages_append _ _ _ _ h := nomatch h
  messages_decode _ _ h := nomatch h

/-- A turn ends inside the line `ab`; the rest of the line is in no fragment. -/
theorem not_tiles_insideLine :
    ¬ Tiles byteLines (encode "a".toList) (encode "b\nc\n".toList) := by
  intro h
  have htext : @Eq (List Char) _ _ := h
  exact absurd htext (by decide)

end Interactions
end Bitloops
