import Mathlib.Data.List.Basic

/-!
# Splitting a transcript at a uuid

A transcript is cut after the first entry with a uuid: `truncateTranscriptAtUuid` keeps what lies
up to it, `filterTranscriptAfterUuid` what comes after it.  Both return the whole transcript for
an empty or unknown uuid, and the second one also where nothing comes after the entry.
-/

namespace Bitloops
namespace Checkpoints

/-- An entry of a transcript; `message` is its JSON. -/
structure Line where
  type : String
  uuid : String
  message : String
  deriving DecidableEq, Repr

/-- `iter().position(|line| line.uuid == uuid)`. -/
def uuidPosition (transcript : List Line) (uuid : String) : Option ℕ :=
  transcript.findIdx? (·.uuid = uuid)

def truncateTranscriptAtUuid (transcript : List Line) (uuid : String) : List Line :=
  if uuid = "" then transcript
  else
    match uuidPosition transcript uuid with
    | some idx => transcript.take (idx + 1)
    | none => transcript

def filterTranscriptAfterUuid (transcript : List Line) (uuid : String) : List Line :=
  if uuid = "" then transcript
  else
    match uuidPosition transcript uuid with
    | none => transcript
    | some idx =>
      if idx = transcript.length - 1 then transcript else transcript.drop (idx + 1)

variable {transcript : List Line} {uuid : String} {idx : ℕ}

theorem uuidPosition_eq_none_iff :
    uuidPosition transcript uuid = none ↔ uuid ∉ transcript.map Line.uuid := by
  simp [uuidPosition, List.findIdx?_eq_none_iff]

/-- The first entry with a uuid is not the last one if an earlier one has it. -/
theorem uuidPosition_lt_iff (h : uuidPosition transcript uuid = some idx) :
    idx < transcript.length - 1 ↔ uuid ∈ transcript.dropLast.map Line.uuid := by
  obtain ⟨hlength, hentry, hfirst⟩ := List.findIdx?_eq_some_iff_getElem.mp h
  constructor
  · intro hlt
    have hlt' : idx < transcript.dropLast.length := by rwa [List.length_dropLast]
    have hmem := List.getElem_mem hlt'
    rw [List.getElem_dropLast] at hmem
    exact List.mem_map.mpr ⟨transcript[idx], hmem, of_decide_eq_true hentry⟩
  · intro hmem
    obtain ⟨line, hline, huuid⟩ := List.mem_map.mp hmem
    obtain ⟨j, hj, hget⟩ := List.mem_iff_getElem.mp hline
    rw [List.getElem_dropLast] at hget
    rw [List.length_dropLast] at hj
    have hle : ¬ j < idx := fun hlt => hfirst j hlt (by simp [hget, huuid])
    omega

/-- **The two parts give back the transcript** where the cut lies before its last entry;
elsewhere each of them is the whole transcript. -/
theorem truncate_append_filter (transcript : List Line) (uuid : String) :
    truncateTranscriptAtUuid transcript uuid ++ filterTranscriptAfterUuid transcript uuid =
      if uuid ≠ "" ∧ uuid ∈ transcript.dropLast.map Line.uuid then transcript
      else transcript ++ transcript := by
  unfold truncateTranscriptAtUuid filterTranscriptAfterUuid
  by_cases hempty : uuid = ""
  · rw [if_pos hempty, if_pos hempty, if_neg fun h => h.1 hempty]
  rw [if_neg hempty, if_neg hempty]
  cases hposition : uuidPosition transcript uuid with
  | none =>
    have hmem : uuid ∉ transcript.dropLast.map Line.uuid := fun hmem =>
      uuidPosition_eq_none_iff.mp hposition
        (List.map_subset _ (List.dropLast_subset transcript) hmem)
    rw [if_neg fun h => hmem h.2]
  | some idx =>
    dsimp only
    obtain ⟨hlength, -⟩ := List.findIdx?_eq_some_iff_getElem.mp hposition
    have hlt := uuidPosition_lt_iff hposition
    by_cases hlast : idx = transcript.length - 1
    · have hmem : uuid ∉ transcript.dropLast.map Line.uuid := fun hmem => by
        have := hlt.mpr hmem
        omega
      have hall : transcript.take (idx + 1) = transcript := List.take_of_length_le (by omega)
      rw [if_pos hlast, hall]
      exact (if_neg fun h => hmem h.2).symm
    · have hmem := hlt.mp (by omega)
      rw [if_neg hlast, List.take_append_drop]
      exact (if_pos ⟨hempty, hmem⟩).symm

/-- After the last entry nothing is left, and the second part is the whole transcript. -/
theorem truncate_append_filter_last :
    truncateTranscriptAtUuid [⟨"user", "u1", "null"⟩, ⟨"assistant", "a1", "null"⟩] "a1" ++
        filterTranscriptAfterUuid [⟨"user", "u1", "null"⟩, ⟨"assistant", "a1", "null"⟩] "a1" ≠
      [⟨"user", "u1", "null"⟩, ⟨"assistant", "a1", "null"⟩] := by
  decide

end Checkpoints
end Bitloops
