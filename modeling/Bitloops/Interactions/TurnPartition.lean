import Bitloops.Interactions.TranscriptPipeline

/-!
# The parts of a session

In the order of the turns, the parts are the segments of the session, of which the last turn takes
all that is left over, and then the prompts of the turns without a segment: `slots_partition`.  So
nothing of a session is lost, and the parts do not depend on the order in which the turns are given.
-/

namespace Bitloops
namespace Interactions

open LanguageAdapter (trim)
open Segments

variable {sessionId : String} {entries : List TranscriptEntry} {turns : List InteractionTurn}

/-! ## The order of the turns -/

/-- The indices in the order of their turns. -/
def turnIndices (turns : List InteractionTurn) : List ℕ := (sortedIndices turns).map (·.2)

theorem perm_turnIndices (turns : List InteractionTurn) :
    (turnIndices turns).Perm (List.range turns.length) := by
  have hperm := (perm_orderBy (fun numbered => turnOrder numbered.1) turns.zipIdx).map (·.2)
  rwa [List.zipIdx_map_snd, ← List.range_eq_range'] at hperm

theorem nodup_turnIndices (turns : List InteractionTurn) : (turnIndices turns).Nodup :=
  (perm_turnIndices turns).nodup_iff.mpr List.nodup_range

theorem lt_of_mem_turnIndices {i : ℕ} (h : i ∈ turnIndices turns) : i < turns.length :=
  List.mem_range.mp ((perm_turnIndices turns).mem_iff.mp h)

theorem length_sortedIndices (turns : List InteractionTurn) :
    (sortedIndices turns).length = turns.length := by
  rw [sortedIndices, (perm_orderBy _ _).length_eq, List.length_zipIdx]

/-- The turns in their order. -/
theorem map_fst_sortedIndices (turns : List InteractionTurn) :
    (sortedIndices turns).map (·.1) = orderBy turnOrder turns := by
  have hmap : orderBy turnOrder (turns.zipIdx.map (·.1)) = (sortedIndices turns).map (·.1) :=
    orderBy_map fun _ _ => Iff.rfl
  rw [← hmap, List.zipIdx_map_fst]

/-! ## The segments of the turns -/

/-- The entries of a segment as entries of the turn at a position. -/
def tagged (turns : List InteractionTurn) (k : ℕ) (segment : List TranscriptEntry) :
    List TranscriptEntry :=
  match (orderBy turnOrder turns)[k]? with
  | some turn => retagEntries segment turn.turnId
  | none => []

theorem tagged_of_getElem? {k i : ℕ} {turn : InteractionTurn}
    (hk : (sortedIndices turns)[k]? = some (turn, i)) (segment : List TranscriptEntry) :
    tagged turns k segment = retagEntries segment turn.turnId := by
  rw [tagged, ← map_fst_sortedIndices, List.getElem?_map, hk]
  rfl

theorem tagged_append (k : ℕ) (l l' : List TranscriptEntry) :
    tagged turns k (l ++ l') = tagged turns k l ++ tagged turns k l' := by
  unfold tagged
  split
  · exact List.map_append
  · rfl

theorem length_assignSegment (sorted : List (InteractionTurn × ℕ))
    (result : List (List TranscriptEntry)) (numbered : List TranscriptEntry × ℕ) :
    (assignSegment sorted result numbered).length = result.length := by
  unfold assignSegment
  split
  · exact List.length_set
  · split
    · exact List.length_modify ..
    · rfl

/-- One step of the loop, in the order of the turns. -/
theorem readSlots_assignSegment {result : List (List TranscriptEntry)} (hne : turns ≠ [])
    (hlength : result.length = turns.length) (numbered : List TranscriptEntry × ℕ) :
    readSlots (turnIndices turns) (assignSegment (sortedIndices turns) result numbered) =
      placeSegment (tagged turns) turns.length (readSlots (turnIndices turns) result) numbered := by
  have hslot : ∀ (k : ℕ) (turn : InteractionTurn) (i : ℕ), (sortedIndices turns)[k]? = some (turn, i) →
      (turnIndices turns)[k]? = some i ∧ i < result.length := by
    intro k turn i hk
    have hi : (turnIndices turns)[k]? = some i := by
      rw [turnIndices, List.getElem?_map, hk]
      rfl
    exact ⟨hi, hlength ▸ lt_of_mem_turnIndices (List.mem_of_getElem? hi)⟩
  rw [assignSegment, placeSegment]
  by_cases hlt : numbered.2 < turns.length
  · obtain ⟨⟨turn, i⟩, hk⟩ : ∃ sorted, (sortedIndices turns)[numbered.2]? = some sorted :=
      ⟨_, List.getElem?_eq_getElem (by rwa [length_sortedIndices])⟩
    obtain ⟨hi, hresult⟩ := hslot numbered.2 turn i hk
    rw [if_pos hlt, hk, tagged_of_getElem? hk]
    exact readSlots_set (nodup_turnIndices turns) hi hresult _
  · have hnone : (sortedIndices turns)[numbered.2]? = none := by
      rw [List.getElem?_eq_none_iff, length_sortedIndices]
      exact Nat.le_of_not_lt hlt
    have hpos := List.length_pos_of_ne_nil hne
    obtain ⟨⟨turn, i⟩, hk⟩ : ∃ sorted, (sortedIndices turns)[turns.length - 1]? = some sorted :=
      ⟨_, List.getElem?_eq_getElem (by rw [length_sortedIndices]; omega)⟩
    have hlast : (sortedIndices turns).getLast? = some (turn, i) := by
      rw [List.getLast?_eq_getElem?, length_sortedIndices, hk]
    obtain ⟨hi, hresult⟩ := hslot _ turn i hk
    rw [if_neg hlt, hnone, hlast]
    simp only [tagged_of_getElem? hk]
    exact readSlots_modify (nodup_turnIndices turns) hi hresult _

/-- The loop over the segments, in the order of the turns. -/
theorem readSlots_foldl_assignSegment (hne : turns ≠ [])
    (numbered : List (List TranscriptEntry × ℕ)) {result : List (List TranscriptEntry)}
    (hlength : result.length = turns.length) :
    (numbered.foldl (assignSegment (sortedIndices turns)) result).length = turns.length ∧
      readSlots (turnIndices turns) (numbered.foldl (assignSegment (sortedIndices turns)) result) =
        numbered.foldl (placeSegment (tagged turns) turns.length)
          (readSlots (turnIndices turns) result) := by
  induction numbered generalizing result with
  | nil => exact ⟨hlength, rfl⟩
  | cons segment numbered ih =>
    rw [List.foldl_cons, List.foldl_cons, ← readSlots_assignSegment hne hlength]
    exact ih ((length_assignSegment ..).trans hlength)

/-! ## The parts in the order of the turns -/

/-- The entries of the turns with a segment, and the prompts of the others. -/
def slotsOf (sessionId : String) (entries : List TranscriptEntry) (turns : List InteractionTurn) :
    List (List TranscriptEntry) :=
  let segments := sessionSegments entries
  ((overflowLast turns.length segments).mapIdx (tagged turns)).take segments.length ++
    ((orderBy turnOrder turns).drop segments.length).map
      (synthesizePromptFallbackEntries sessionId)

/-- The prompt of the turn at an index. -/
def promptAt (sessionId : String) (turns : List InteractionTurn) (i : ℕ) : List TranscriptEntry :=
  (turns[i]?).elim [] (synthesizePromptFallbackEntries sessionId)

theorem promptAt_of_mem {numbered : InteractionTurn × ℕ} (h : numbered ∈ sortedIndices turns) :
    promptAt sessionId turns numbered.2 =
      synthesizePromptFallbackEntries sessionId numbered.1 := by
  have hmem := List.mem_zipIdx_iff_getElem?.mp (mem_orderBy.mp h)
  rw [promptAt, hmem]
  rfl

theorem foldl_prompts (count : ℕ) (result : List (List TranscriptEntry)) :
    ((sortedIndices turns).drop count).foldl (fun result numbered =>
        result.set numbered.2 (synthesizePromptFallbackEntries sessionId numbered.1)) result =
      ((turnIndices turns).drop count).foldl
        (fun result i => result.set i (promptAt sessionId turns i)) result := by
  rw [turnIndices, ← List.map_drop, List.foldl_map]
  refine List.foldl_ext _ _ result fun slots numbered hnumbered => ?_
  rw [promptAt_of_mem (List.mem_of_mem_drop hnumbered)]

theorem map_promptAt (sessionId : String) (turns : List InteractionTurn) (count : ℕ) :
    ((turnIndices turns).drop count).map (promptAt sessionId turns) =
      ((orderBy turnOrder turns).drop count).map (synthesizePromptFallbackEntries sessionId) := by
  rw [← map_fst_sortedIndices, turnIndices, ← List.map_drop, ← List.map_drop, List.map_map,
    List.map_map]
  exact List.map_congr_left fun numbered hnumbered =>
    promptAt_of_mem (List.mem_of_mem_drop hnumbered)

theorem length_foldl_set (l : List ℕ) (slot : ℕ → List TranscriptEntry)
    (result : List (List TranscriptEntry)) :
    (l.foldl (fun result i => result.set i (slot i)) result).length = result.length := by
  induction l generalizing result with
  | nil => rfl
  | cons i l ih => rw [List.foldl_cons, ih, List.length_set]

/-- What the partition computes, in the order of the turns. -/
theorem slots_partition (sessionId : String) (entries : List TranscriptEntry)
    (hne : turns ≠ []) :
    (partitionSessionEntriesToTurns sessionId entries turns).length = turns.length ∧
      readSlots (turnIndices turns) (partitionSessionEntriesToTurns sessionId entries turns) =
        slotsOf sessionId entries turns := by
  have hpos := List.length_pos_of_ne_nil hne
  have hinit : (List.replicate turns.length ([] : List TranscriptEntry)).length = turns.length :=
    List.length_replicate
  obtain ⟨hlength, hloop⟩ :=
    readSlots_foldl_assignSegment hne (sessionSegments entries).zipIdx hinit
  rw [readSlots_replicate, (perm_turnIndices turns).length_eq, List.length_range,
    foldl_placeSegment tagged_append hpos] at hloop
  rw [partitionSessionEntriesToTurns, slotsOf, ← map_promptAt]
  simp only [if_neg hne, foldl_prompts]
  rw [← hloop]
  split_ifs with hcount
  · rw [length_foldl_set]
    exact ⟨hlength, readSlots_foldl_set (nodup_turnIndices turns)
      (fun i hi => (lt_of_mem_turnIndices hi).trans_eq hlength.symm) _ _⟩
  · refine ⟨hlength, ?_⟩
    rw [length_sortedIndices] at hcount
    rw [List.take_of_length_le, List.drop_of_length_le, List.map_nil, List.append_nil]
    · rw [(perm_turnIndices turns).length_eq, List.length_range]
      exact Nat.le_of_not_lt hcount
    · rw [readSlots, List.length_map, (perm_turnIndices turns).length_eq, List.length_range]
      exact Nat.le_of_not_lt hcount

/-! ## What the parts are -/

/-- The entry without its turn. -/
def untagged (entry : TranscriptEntry) : TranscriptEntry := { entry with turnId := none }

/-- The turns with their parts. -/
def turnParts (sessionId : String) (entries : List TranscriptEntry)
    (turns : List InteractionTurn) : List (InteractionTurn × List TranscriptEntry) :=
  turns.zip (partitionSessionEntriesToTurns sessionId entries turns)

/-- The turns with their parts, in the order of the turns. -/
def orderedParts (sessionId : String) (entries : List TranscriptEntry)
    (turns : List InteractionTurn) : List (InteractionTurn × List TranscriptEntry) :=
  orderBy (fun part => turnOrder part.1) (turnParts sessionId entries turns)

theorem orderedParts_eq (sessionId : String) (entries : List TranscriptEntry) (hne : turns ≠ []) :
    orderedParts sessionId entries turns =
      (orderBy turnOrder turns).zip (slotsOf sessionId entries turns) := by
  obtain ⟨hlength, hslots⟩ := slots_partition sessionId entries hne
  let result := partitionSessionEntriesToTurns sessionId entries turns
  have hzip : turnParts sessionId entries turns =
      turns.zipIdx.map fun numbered => (numbered.1, result[numbered.2]?.getD []) := by
    refine List.ext_getElem (by simp [turnParts, hlength]) fun i hi hi' => ?_
    have hi : i < turns.length := by simpa using hi'
    simp only [turnParts, List.getElem_zip, List.getElem_map, List.getElem_zipIdx, Nat.zero_add]
    rw [List.getElem?_eq_getElem (hi.trans_eq hlength.symm), Option.getD_some]
  have hsort : orderBy (fun part => turnOrder part.1) (turns.zipIdx.map fun numbered =>
      (numbered.1, result[numbered.2]?.getD [])) =
        (sortedIndices turns).map fun numbered => (numbered.1, result[numbered.2]?.getD []) :=
    orderBy_map fun _ _ => Iff.rfl
  rw [orderedParts, hzip, hsort, ← map_fst_sortedIndices, ← hslots, readSlots, turnIndices,
    List.map_map, List.zip_map']
  rfl

theorem length_slotsOf (hne : turns ≠ []) :
    (slotsOf sessionId entries turns).length = turns.length := by
  rw [← (slots_partition sessionId entries hne).2, readSlots, List.length_map,
    (perm_turnIndices turns).length_eq, List.length_range]

theorem map_untagged_tagged {k : ℕ} (hk : k < turns.length) (segment : List TranscriptEntry) :
    (tagged turns k segment).map untagged = segment.map untagged := by
  rw [tagged, List.getElem?_eq_getElem (by rwa [(perm_orderBy turnOrder turns).length_eq])]
  exact List.map_map

theorem flatten_sessionSegments (entries : List TranscriptEntry) :
    (sessionSegments entries).flatten = entries := by
  rw [sessionSegments, flatten_mergeFirst, flatten_segmentsFrom, List.nil_append]

/-- The entries of the session come back in their order. -/
theorem map_untagged_slots (hne : turns ≠ []) (entries : List TranscriptEntry) :
    (((overflowLast turns.length (sessionSegments entries)).mapIdx (tagged turns)).take
      (sessionSegments entries).length).flatten.map untagged = entries.map untagged := by
  have huntagged : ((overflowLast turns.length (sessionSegments entries)).mapIdx
      (tagged turns)).map (List.map untagged) =
        (overflowLast turns.length (sessionSegments entries)).map (List.map untagged) := by
    refine List.ext_getElem (by simp) fun k hk hk' => ?_
    have hk : k < turns.length := by simpa using hk
    rw [List.getElem_map, List.getElem_mapIdx, map_untagged_tagged hk, List.getElem_map]
  have hflatten := flatten_overflowLast (List.length_pos_of_ne_nil hne) (sessionSegments entries)
  rw [← List.take_append_drop (sessionSegments entries).length
    (overflowLast turns.length (sessionSegments entries)), List.flatten_append,
    drop_overflowLast, List.flatten_replicate_nil, List.append_nil,
    flatten_sessionSegments] at hflatten
  rw [List.map_flatten, List.map_take, huntagged, ← List.map_take, ← List.map_flatten, hflatten]

/-- An entry of a segment belongs to the turn of the segment. -/
theorem turnId_of_mem_tagged {k : ℕ} {turn : InteractionTurn}
    (hk : (orderBy turnOrder turns)[k]? = some turn) {segment : List TranscriptEntry}
    {entry : TranscriptEntry} (h : entry ∈ tagged turns k segment) :
    entry.turnId = some turn.turnId := by
  rw [tagged, hk] at h
  obtain ⟨entry, -, rfl⟩ := List.mem_map.mp h
  rfl

/-- The first turns have the segments, and the others their prompts. -/
theorem orderedParts_split (sessionId : String) (entries : List TranscriptEntry)
    (hne : turns ≠ []) :
    ∃ owned synthesised, orderedParts sessionId entries turns = owned ++ synthesised ∧
      (owned.flatMap (·.2)).map untagged = entries.map untagged ∧
      (∀ part ∈ owned, ∀ entry ∈ part.2, entry.turnId = some part.1.turnId) ∧
      ∀ part ∈ synthesised, part.2 = synthesizePromptFallbackEntries sessionId part.1 := by
  let count := (sessionSegments entries).length
  let sorted := orderBy turnOrder turns
  let slots := ((overflowLast turns.length (sessionSegments entries)).mapIdx (tagged turns)).take
    count
  have hlength : (sorted.take count).length = slots.length := by
    simp only [sorted, slots, List.length_take, List.length_mapIdx, length_overflowLast,
      (perm_orderBy turnOrder turns).length_eq]
  refine ⟨(sorted.take count).zip slots,
    (sorted.drop count).map fun turn => (turn, synthesizePromptFallbackEntries sessionId turn),
    ?_, ?_, ?_, ?_⟩
  · rw [orderedParts_eq sessionId entries hne, slotsOf]
    change sorted.zip (slots ++ (sorted.drop count).map _) = _
    conv_lhs => rw [← List.take_append_drop count sorted]
    rw [List.zip_append hlength, List.take_append_drop]
    have hprompts : ((sorted.drop count).map id).zip
        ((sorted.drop count).map (synthesizePromptFallbackEntries sessionId)) = _ := List.zip_map'
    rw [List.map_id] at hprompts
    rw [hprompts]
    rfl
  · rw [List.flatMap_def, List.map_snd_zip hlength.symm.le]
    exact map_untagged_slots hne entries
  · intro part hpart entry hentry
    obtain ⟨k, hk, rfl⟩ := List.mem_iff_getElem.mp hpart
    have hk' : k < sorted.length := by
      rw [List.length_zip, List.length_take] at hk
      omega
    simp only [slots, List.getElem_zip, List.getElem_take, List.getElem_mapIdx] at hentry
    rw [List.getElem_zip, List.getElem_take]
    exact turnId_of_mem_tagged (List.getElem?_eq_getElem hk') hentry
  · intro part hpart
    obtain ⟨turn, -, rfl⟩ := List.mem_map.mp hpart
    rfl

theorem anchored_tagged {k : ℕ} (hk : k < turns.length) {segment : List TranscriptEntry}
    (h : segment = [] ∨ Anchored isUserChat segment) :
    tagged turns k segment = [] ∨ Anchored isUserChat (tagged turns k segment) := by
  rw [tagged, List.getElem?_eq_getElem (by rwa [(perm_orderBy turnOrder turns).length_eq])]
  rcases h with rfl | ⟨entry, rest, rfl, hentry⟩
  · exact Or.inl rfl
  · exact Or.inr ⟨_, _, rfl, hentry⟩

theorem anchored_synthesize (sessionId : String) (turn : InteractionTurn) :
    synthesizePromptFallbackEntries sessionId turn = [] ∨
      Anchored isUserChat (synthesizePromptFallbackEntries sessionId turn) := by
  by_cases htext : trim (stripUserQueryTags turn.prompt.toList) = []
  · exact Or.inl (if_pos htext)
  · exact Or.inr ⟨_, [], if_neg htext, rfl⟩

theorem isUserChat_of_tail (sessionId : String) (entries : List TranscriptEntry)
    (hne : turns ≠ []) :
    ∀ part ∈ (orderedParts sessionId entries turns).tail,
      part.2 = [] ∨ Anchored isUserChat part.2 := by
  have hsegments : ∀ segment ∈ (sessionSegments entries).tail, Anchored isUserChat segment :=
    anchored_mergeFirst fun segment => anchored_of_mem_tail
  have hslots : ∀ slot ∈ (slotsOf sessionId entries turns).tail,
      slot = [] ∨ Anchored isUserChat slot := by
    intro slot hslot
    rw [slotsOf, List.tail_append] at hslot
    split at hslot
    · obtain ⟨turn, -, rfl⟩ := List.mem_map.mp (List.mem_of_mem_tail hslot)
      exact anchored_synthesize sessionId turn
    · rcases List.mem_append.mp hslot with hslot | hslot
      · rw [← List.drop_one, List.drop_take] at hslot
        obtain ⟨k, hk, rfl⟩ := List.mem_iff_getElem.mp (List.mem_of_mem_take hslot)
        rw [List.length_drop, List.length_mapIdx, length_overflowLast] at hk
        have hlength := length_overflowLast turns.length (sessionSegments entries)
        have hmem : (overflowLast turns.length (sessionSegments entries))[1 + k] ∈
            (overflowLast turns.length (sessionSegments entries)).tail := by
          rw [← List.drop_one]
          exact List.mem_drop_iff_getElem.mpr ⟨k, by omega, rfl⟩
        rw [List.getElem_drop, List.getElem_mapIdx]
        exact anchored_tagged (by omega) (anchored_tail_overflowLast hsegments _ hmem)
      · obtain ⟨turn, -, rfl⟩ := List.mem_map.mp hslot
        exact anchored_synthesize sessionId turn
  intro part hpart
  rw [orderedParts_eq sessionId entries hne, List.tail_zip] at hpart
  exact hslots part.2 (List.of_mem_zip hpart).2

theorem perm_turnParts {turns' : List InteractionTurn} (hperm : turns'.Perm turns)
    (hids : (turns.map InteractionTurn.turnId).Nodup) :
    (turnParts sessionId entries turns').Perm (turnParts sessionId entries turns) := by
  have hsorted : orderBy turnOrder turns' = orderBy turnOrder turns := by
    refine orderBy_eq_of_perm hperm fun turn hturn turn' hturn' heq => ?_
    have hid : turn.turnId = turn'.turnId := congrArg (fun key => (ofLex (ofLex key).2).2) heq
    exact List.inj_on_of_nodup_map hids (hperm.mem_iff.mp hturn) (hperm.mem_iff.mp hturn') hid
  have hslots : slotsOf sessionId entries turns' = slotsOf sessionId entries turns := by
    have htagged : tagged turns' = tagged turns := by
      funext k segment
      rw [tagged, tagged, hsorted]
    rw [slotsOf, slotsOf, hsorted, htagged, hperm.length_eq]
  rcases eq_or_ne turns [] with rfl | hne
  · rw [hperm.eq_nil]
  · have hne' : turns' ≠ [] := fun h => hne (by rw [h] at hperm; exact hperm.nil_eq.symm)
    have hordered : orderedParts sessionId entries turns' = orderedParts sessionId entries turns := by
      rw [orderedParts_eq sessionId entries hne', orderedParts_eq sessionId entries hne, hsorted,
        hslots]
    have hparts := perm_orderBy (fun part => turnOrder part.1) (turnParts sessionId entries turns')
    have hparts' := perm_orderBy (fun part => turnOrder part.1) (turnParts sessionId entries turns)
    exact hparts.symm.trans ((List.Perm.of_eq hordered).trans hparts')

/-- The parts of a session over its turns: nothing is lost, every part but the first begins with a
message of the user, and the order in which the turns are given does not matter. -/
theorem partition_conserves (sessionId : String) (entries : List TranscriptEntry)
    (turns : List InteractionTurn) (hne : turns ≠ [])
    (hids : (turns.map InteractionTurn.turnId).Nodup) :
    (partitionSessionEntriesToTurns sessionId entries turns).length = turns.length ∧
      (∃ owned synthesised, orderedParts sessionId entries turns = owned ++ synthesised ∧
        (owned.flatMap (·.2)).map untagged = entries.map untagged ∧
        (∀ part ∈ owned, ∀ entry ∈ part.2, entry.turnId = some part.1.turnId) ∧
        ∀ part ∈ synthesised, part.2 = synthesizePromptFallbackEntries sessionId part.1) ∧
      (∀ part ∈ (orderedParts sessionId entries turns).tail,
        part.2 = [] ∨ Anchored isUserChat part.2) ∧
      ∀ turns', turns'.Perm turns →
        (turnParts sessionId entries turns').Perm (turnParts sessionId entries turns) :=
  ⟨(slots_partition sessionId entries hne).1, orderedParts_split sessionId entries hne,
    isUserChat_of_tail sessionId entries hne, fun _ hperm => perm_turnParts hperm hids⟩

/-- A session of two messages and an answer over two turns that are given the other way round. -/
theorem partition_conserves_reversed :
    let entry := fun actor text =>
      ({ entryId := "", sessionId := "s", turnId := none, order := 0, timestamp := none, actor
         variant := .chat, source := .transcript, text, toolUseId := none, toolKind := none
         isError := false } : TranscriptEntry)
    let entries := [entry .user "ask 1", entry .assistant "answer 1", entry .user "ask 2"]
    let turns := [{ turnId := "turn-2", sessionId := "s", repoId := "r", turnNumber := 2 },
      ({ turnId := "turn-1", sessionId := "s", repoId := "r", turnNumber := 1 } : InteractionTurn)]
    (∀ part ∈ (orderedParts "s" entries turns).tail,
        part.2 = [] ∨ Anchored isUserChat part.2) ∧
      (partitionSessionEntriesToTurns "s" entries turns).map List.length = [1, 2] := by
  intro entry entries turns
  exact ⟨(partition_conserves "s" entries turns (by decide) (by decide)).2.2.1, by decide⟩

end Interactions
end Bitloops
