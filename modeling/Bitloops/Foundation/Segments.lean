import Mathlib.Data.List.Basic

/-!
# Cutting a list into segments

* `segmentsFrom starts current l`: the segments of a list, each of which begins where `starts`
  holds, while `current` is the segment that is open; with `flatten_segmentsFrom` and
  `starts_of_mem_tail`.
* `mergeFirst starts segments`: a first segment that does not begin in this way is put before the
  second one.
* `overflowLast n segments`: the segments in `n` slots, of which the last one takes all that is
  left over; `foldl_placeSegment` is the loop that fills them.
* `readSlots order result`: the slots of an array in the order of their indices.
-/

namespace Bitloops
namespace Segments

variable {α β : Type*}

/-- A segment ends where the next one starts. -/
def segmentsFrom (starts : α → Bool) (current : List α) : List α → List (List α)
  | [] => if current.isEmpty then [] else [current]
  | x :: l =>
    if starts x && !current.isEmpty then current :: segmentsFrom starts [x] l
    else segmentsFrom starts (current ++ [x]) l

/-- The list begins where a segment starts. -/
def Anchored (starts : α → Bool) (l : List α) : Prop := ∃ x rest, l = x :: rest ∧ starts x = true

def isAnchored (starts : α → Bool) (l : List α) : Bool := l.head?.any starts

/-- A first segment that is not anchored is put before the second one. -/
def mergeFirst (starts : α → Bool) : List (List α) → List (List α)
  | first :: second :: rest =>
    if isAnchored starts first then first :: second :: rest else (first ++ second) :: rest
  | segments => segments

/-- The segments in slots; what is left over goes to the last slot. -/
def overflowLast : ℕ → List (List α) → List (List α)
  | 0, _ => []
  | 1, segments => [segments.flatten]
  | n + 2, [] => [] :: overflowLast (n + 1) []
  | n + 2, segment :: segments => segment :: overflowLast (n + 1) segments

variable {starts : α → Bool} {current l : List α}

theorem isAnchored_iff : isAnchored starts l = true ↔ Anchored starts l := by
  cases l with
  | nil => exact iff_of_false Bool.false_ne_true fun ⟨x, rest, h, _⟩ => List.cons_ne_nil x rest h.symm
  | cons x l =>
    refine ⟨fun h => ⟨x, l, rfl, h⟩, ?_⟩
    rintro ⟨y, rest, hl, hy⟩
    rwa [← (List.cons_eq_cons.mp hl).1] at hy

theorem Anchored.append (h : Anchored starts l) (l' : List α) : Anchored starts (l ++ l') := by
  obtain ⟨x, rest, rfl, hx⟩ := h
  exact ⟨x, rest ++ l', rfl, hx⟩

/-! ## The segments of a list -/

/-- Nothing is lost. -/
theorem flatten_segmentsFrom (starts : α → Bool) (current l : List α) :
    (segmentsFrom starts current l).flatten = current ++ l := by
  induction l generalizing current with
  | nil =>
    rw [segmentsFrom]
    cases current with
    | nil => rfl
    | cons x current => rw [if_neg (by simp), List.flatten_singleton, List.append_nil]
  | cons x l ih =>
    rw [segmentsFrom]
    split_ifs with h
    · rw [List.flatten_cons, ih, List.singleton_append]
    · rw [ih, List.append_assoc, List.singleton_append]

theorem ne_nil_of_mem_segmentsFrom {segment : List α}
    (h : segment ∈ segmentsFrom starts current l) : segment ≠ [] := by
  induction l generalizing current with
  | nil =>
    rw [segmentsFrom] at h
    split_ifs at h with hcurrent
    · exact absurd h List.not_mem_nil
    · rw [List.mem_singleton.mp h]
      simpa using hcurrent
  | cons x l ih =>
    rw [segmentsFrom] at h
    split_ifs at h with hx
    · rcases List.mem_cons.mp h with rfl | h
      · rw [Bool.and_eq_true] at hx
        simpa using hx.2
      · exact ih h
    · exact ih h

theorem anchored_of_mem_segmentsFrom (hcurrent : Anchored starts current) {segment : List α}
    (h : segment ∈ segmentsFrom starts current l) : Anchored starts segment := by
  induction l generalizing current with
  | nil =>
    rw [segmentsFrom] at h
    split_ifs at h
    · exact absurd h List.not_mem_nil
    · rwa [List.mem_singleton.mp h]
  | cons x l ih =>
    rw [segmentsFrom] at h
    split_ifs at h with hx
    · rcases List.mem_cons.mp h with rfl | h
      · exact hcurrent
      · exact ih ⟨x, [], rfl, (Bool.and_eq_true_iff.mp hx).1⟩ h
    · exact ih (hcurrent.append [x]) h

/-- Only the first segment may begin anywhere. -/
theorem anchored_of_mem_tail {segment : List α}
    (h : segment ∈ (segmentsFrom starts current l).tail) : Anchored starts segment := by
  induction l generalizing current with
  | nil =>
    rw [segmentsFrom] at h
    split_ifs at h <;> exact absurd h List.not_mem_nil
  | cons x l ih =>
    rw [segmentsFrom] at h
    split_ifs at h with hx
    · exact anchored_of_mem_segmentsFrom ⟨x, [], rfl, (Bool.and_eq_true_iff.mp hx).1⟩ h
    · exact ih h

/-! ## The first segment -/

@[simp] theorem flatten_mergeFirst (segments : List (List α)) :
    (mergeFirst starts segments).flatten = segments.flatten := by
  match segments with
  | [] => rfl
  | [first] => rfl
  | first :: second :: rest =>
    rw [mergeFirst]
    split_ifs
    · rfl
    · simp only [List.flatten_cons, List.append_assoc]

theorem anchored_mergeFirst {segments : List (List α)}
    (h : ∀ segment ∈ segments.tail, Anchored starts segment) :
    ∀ segment ∈ (mergeFirst starts segments).tail, Anchored starts segment := by
  match segments with
  | [] => exact h
  | [first] => exact h
  | first :: second :: rest =>
    rw [mergeFirst]
    split_ifs
    · exact h
    · exact fun segment hmem => h segment (List.mem_cons_of_mem second hmem)

/-! ## Slots -/

theorem overflowLast_nil (n : ℕ) : overflowLast n ([] : List (List α)) = List.replicate n [] := by
  induction n with
  | zero => rfl
  | succ n ih =>
    cases n with
    | zero => rfl
    | succ n => rw [overflowLast, ih, ← List.replicate_succ]

@[simp] theorem length_overflowLast (n : ℕ) (segments : List (List α)) :
    (overflowLast n segments).length = n := by
  induction n generalizing segments with
  | zero => rfl
  | succ n ih =>
    cases n with
    | zero => rfl
    | succ n => cases segments <;> rw [overflowLast, List.length_cons, ih]

/-- Nothing is lost in the slots. -/
theorem flatten_overflowLast {n : ℕ} (hn : 0 < n) (segments : List (List α)) :
    (overflowLast n segments).flatten = segments.flatten := by
  induction n generalizing segments with
  | zero => exact absurd hn (Nat.lt_irrefl 0)
  | succ n ih =>
    cases n with
    | zero => exact List.append_nil _
    | succ n =>
      cases segments with
      | nil => exact ih n.succ_pos []
      | cons segment segments =>
        rw [overflowLast, List.flatten_cons, ih n.succ_pos, List.flatten_cons]

/-- Every slot after the first one is empty or begins where a segment starts. -/
theorem anchored_overflowLast {n : ℕ} {segments : List (List α)}
    (h : ∀ segment ∈ segments, Anchored starts segment) :
    ∀ slot ∈ overflowLast n segments, slot = [] ∨ Anchored starts slot := by
  induction n generalizing segments with
  | zero => exact fun _ hmem => absurd hmem List.not_mem_nil
  | succ n ih =>
    intro slot hslot
    cases n with
    | zero =>
      rw [List.mem_singleton.mp hslot]
      cases segments with
      | nil => exact Or.inl rfl
      | cons segment segments => exact Or.inr ((h segment List.mem_cons_self).append _)
    | succ n =>
      cases segments with
      | nil =>
        rcases List.mem_cons.mp hslot with rfl | hslot
        · exact Or.inl rfl
        · exact ih h slot hslot
      | cons segment segments =>
        rcases List.mem_cons.mp hslot with rfl | hslot
        · exact Or.inr (h slot List.mem_cons_self)
        · exact ih (fun other hother => h other (List.mem_cons_of_mem segment hother)) slot hslot

theorem anchored_tail_overflowLast {n : ℕ} {segments : List (List α)}
    (h : ∀ segment ∈ segments.tail, Anchored starts segment) :
    ∀ slot ∈ (overflowLast n segments).tail, slot = [] ∨ Anchored starts slot := by
  match n, segments with
  | 0, _ => exact fun _ hmem => absurd hmem List.not_mem_nil
  | 1, _ => exact fun _ hmem => absurd hmem List.not_mem_nil
  | n + 2, [] => exact anchored_overflowLast h
  | n + 2, _ :: _ => exact anchored_overflowLast h

/-- Slots for which there is no segment are empty. -/
theorem drop_overflowLast (n : ℕ) (segments : List (List α)) :
    (overflowLast n segments).drop segments.length =
      List.replicate (n - segments.length) [] := by
  induction n generalizing segments with
  | zero => rw [overflowLast, List.drop_nil, Nat.zero_sub, List.replicate_zero]
  | succ n ih =>
    cases segments with
    | nil => rw [List.length_nil, List.drop_zero, overflowLast_nil, Nat.sub_zero]
    | cons segment segments =>
      rw [List.length_cons, Nat.succ_sub_succ]
      cases n with
      | zero => rw [overflowLast, List.drop_succ_cons, List.drop_nil, Nat.zero_sub,
          List.replicate_zero]
      | succ n => rw [overflowLast, List.drop_succ_cons, ih]

/-! ## Filling the slots -/

/-- A segment is put into its slot, or behind what is in the last one. -/
def placeSegment (tag : ℕ → List α → List β) (n : ℕ) (slots : List (List β))
    (numbered : List α × ℕ) : List (List β) :=
  if numbered.2 < n then slots.set numbered.2 (tag numbered.2 numbered.1)
  else slots.modify (n - 1) (· ++ tag (n - 1) numbered.1)

theorem modify_length_append (f : α → α) (l : List α) (x : α) :
    (l ++ [x]).modify l.length f = l ++ [f x] := by
  induction l with
  | nil => rfl
  | cons y l ih => exact congrArg (y :: ·) ih

section Filling

variable {tag : ℕ → List α → List β} (htag : ∀ k l l', tag k (l ++ l') = tag k l ++ tag k l')
include htag

theorem tag_nil (k : ℕ) : tag k [] = [] := by
  have h := htag k [] []
  rw [List.append_nil] at h
  exact List.self_eq_append_left.mp h

/-- What is left over ends up in the last slot. -/
theorem foldl_placeSegment_overflow {n start : ℕ} (segments : List (List α)) (slots : List (List β))
    (last : List β) (hn : slots.length + 1 = n) (hstart : n ≤ start) :
    (segments.zipIdx start).foldl (placeSegment tag n) (slots ++ [last]) =
      slots ++ [last ++ tag (n - 1) segments.flatten] := by
  induction segments generalizing start last with
  | nil => rw [List.flatten_nil, tag_nil htag, List.append_nil]; rfl
  | cons segment segments ih =>
    have hplace : placeSegment tag n (slots ++ [last]) (segment, start) =
        slots ++ [last ++ tag (n - 1) segment] := by
      have hlast : n - 1 = slots.length := by omega
      rw [placeSegment, if_neg (by simpa using hstart), hlast, modify_length_append]
    rw [List.zipIdx_cons, List.foldl_cons, hplace, ih _ (by omega), List.flatten_cons, htag,
      List.append_assoc]

/-- The loop puts the segments into the slots. -/
theorem foldl_placeSegment_from {n start count : ℕ} (segments : List (List α))
    (slots : List (List β)) (hslots : slots.length = start) (hn : n = start + (count + 1)) :
    (segments.zipIdx start).foldl (placeSegment tag n) (slots ++ List.replicate (count + 1) []) =
      slots ++ (overflowLast (count + 1) segments).mapIdx fun i => tag (start + i) := by
  induction segments generalizing start count slots with
  | nil =>
    have hempty : (overflowLast (count + 1) ([] : List (List α))).mapIdx
        (fun i => tag (start + i)) = List.replicate (count + 1) [] := by
      rw [overflowLast_nil]
      refine List.eq_replicate_iff.mpr ⟨by simp, fun slot hslot => ?_⟩
      obtain ⟨i, hi, rfl⟩ := List.mem_mapIdx.mp hslot
      rw [List.getElem_replicate, tag_nil htag]
    rw [hempty]
    rfl
  | cons segment segments ih =>
    have hplace : placeSegment tag n (slots ++ List.replicate (count + 1) []) (segment, start) =
        (slots ++ [tag start segment]) ++ List.replicate count [] := by
      rw [placeSegment, if_pos (by simp; omega), List.replicate_succ, ← hslots,
        List.set_append_right _ _ (Nat.le_refl _), Nat.sub_self, List.set_cons_zero, List.append_assoc,
        List.singleton_append]
    rw [List.zipIdx_cons, List.foldl_cons, hplace]
    cases count with
    | zero =>
      rw [List.replicate_zero, List.append_nil,
        foldl_placeSegment_overflow htag segments slots _ (by omega) (by omega)]
      have hlast : n - 1 = start := by omega
      rw [hlast, ← htag]
      rfl
    | succ count =>
      rw [ih (slots ++ [tag start segment]) (by simp [hslots]) (by omega), List.append_assoc,
        List.singleton_append, overflowLast, List.mapIdx_cons]
      simp only [Nat.add_zero, Nat.add_assoc, Nat.add_comm 1]

theorem foldl_placeSegment {n : ℕ} (hn : 0 < n) (segments : List (List α)) :
    segments.zipIdx.foldl (placeSegment tag n) (List.replicate n []) =
      (overflowLast n segments).mapIdx tag := by
  obtain ⟨count, rfl⟩ := Nat.exists_eq_add_of_le' hn
  have h : (segments.zipIdx 0).foldl (placeSegment tag (count + 1))
      ([] ++ List.replicate (count + 1) []) =
        [] ++ (overflowLast (count + 1) segments).mapIdx fun i => tag (0 + i) :=
    foldl_placeSegment_from htag segments [] rfl (Nat.zero_add (count + 1)).symm
  simpa only [List.nil_append, Nat.zero_add] using h

end Filling

/-! ## Slots of an array -/

/-- The slots in the order of the indices. -/
def readSlots (order : List ℕ) (result : List (List β)) : List (List β) :=
  order.map fun i => result[i]?.getD []

variable {order : List ℕ} {result : List (List β)} {i k : ℕ}

theorem readSlots_replicate (n : ℕ) :
    readSlots order (List.replicate n ([] : List β)) = List.replicate order.length [] := by
  refine List.eq_replicate_iff.mpr ⟨List.length_map .., fun slot hslot => ?_⟩
  obtain ⟨i, -, rfl⟩ := List.mem_map.mp hslot
  rw [List.getElem?_replicate]
  split_ifs <;> rfl

/-- A new slot, seen in the order of the indices. -/
theorem readSlots_set (hnodup : order.Nodup) (hk : order[k]? = some i) (hi : i < result.length)
    (slot : List β) :
    readSlots order (result.set i slot) = (readSlots order result).set k slot := by
  refine List.ext_getElem? fun j => ?_
  rw [readSlots, List.getElem?_map, List.getElem?_set, readSlots, List.getElem?_map,
    List.length_map]
  by_cases hjk : k = j
  · rw [if_pos hjk, if_pos (List.getElem?_eq_some_iff.mp hk).1, ← hjk, hk, Option.map_some,
      List.getElem?_set_self hi, Option.getD_some]
  · rw [if_neg hjk]
    refine Option.map_congr fun other hother => ?_
    have hne : i ≠ other := fun heq => hjk
      ((List.getElem?_inj (List.getElem?_eq_some_iff.mp hk).1 hnodup).mp
        (hk.trans (heq ▸ hother.symm)))
    rw [List.getElem?_set_ne hne]

theorem readSlots_modify (hnodup : order.Nodup) (hk : order[k]? = some i) (hi : i < result.length)
    (f : List β → List β) :
    readSlots order (result.modify i f) = (readSlots order result).modify k f := by
  have hread : (readSlots order result)[k]?.getD default = result[i]?.getD default := by
    rw [readSlots, List.getElem?_map, hk]
    rfl
  rw [List.modify_eq_set, readSlots_set hnodup hk hi, List.modify_eq_set, hread]

theorem getElem?_foldl_set (l : List ℕ) (slot : ℕ → List β) (i : ℕ) :
    (l.foldl (fun result i => result.set i (slot i)) result)[i]? =
      if i ∈ l then result[i]?.map fun _ => slot i else result[i]? := by
  induction l generalizing result with
  | nil => rw [List.foldl_nil, if_neg List.not_mem_nil]
  | cons j l ih =>
    rw [List.foldl_cons, ih]
    by_cases hij : j = i
    · rw [hij, if_pos List.mem_cons_self, List.getElem?_set_self']
      cases result[i]? with
      | none => split_ifs <;> rfl
      | some old => split_ifs <;> rfl
    · have hmem : i ∈ j :: l ↔ i ∈ l := by
        rw [List.mem_cons, or_iff_right (Ne.symm hij)]
      rw [List.getElem?_set_ne hij]
      simp only [hmem]

/-- New slots for the indices of the order from a position on. -/
theorem readSlots_foldl_set (hnodup : order.Nodup) (hlength : ∀ i ∈ order, i < result.length)
    (slot : ℕ → List β) (count : ℕ) :
    readSlots order ((order.drop count).foldl (fun result i => result.set i (slot i)) result) =
      (readSlots order result).take count ++ (order.drop count).map slot := by
  have hparts : order.take count ++ order.drop count = order := List.take_append_drop count order
  have hdisjoint := (List.nodup_append.mp (hparts ▸ hnodup)).2.2
  rw [readSlots, readSlots, ← List.map_take]
  conv_lhs => rw [← hparts, List.map_append]
  simp only [List.take_append_drop]
  congr 1
  · refine List.map_congr_left fun i hi => ?_
    rw [getElem?_foldl_set, if_neg fun hdrop => hdisjoint i hi i hdrop rfl]
  · refine List.map_congr_left fun i hi => ?_
    rw [getElem?_foldl_set, if_pos hi,
      List.getElem?_eq_getElem (hlength i (List.mem_of_mem_drop hi))]
    rfl

end Segments
end Bitloops
