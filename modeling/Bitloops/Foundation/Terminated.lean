import Mathlib.Data.List.Basic

/-!
# Lines with their ends

* `chunks stop l`: the parts of a list up to and including each `stop`, and what is left at the
  end, as a reader takes them one by one; `flatten_chunks` puts them together again.
* `afterLines stop n l`: what follows the first `n` stops; its parts are the later parts of the
  list, `chunks_afterLines`.
* `filterMap_splitOn`: a reader that does not mind the stop at the end of a part finds the same in
  the parts between the stops.
-/

namespace Bitloops
namespace Terminated

variable {α β : Type*} [DecidableEq α] {stop : α} {body rest l l' : List α}

/-! ## Parts -/

def chunks (stop : α) : List α → List (List α)
  | [] => []
  | x :: l =>
    if x = stop then [x] :: chunks stop l
    else
      match chunks stop l with
      | [] => [[x]]
      | chunk :: chunks => (x :: chunk) :: chunks

def afterLines (stop : α) : ℕ → List α → List α
  | 0, l => l
  | _ + 1, [] => []
  | n + 1, x :: l => if x = stop then afterLines stop n l else afterLines stop (n + 1) l

/-- A list without a stop, or a line and the rest. -/
theorem line_induction (stop : α) {P : List α → Prop} (last : ∀ l, stop ∉ l → P l)
    (line : ∀ body rest, stop ∉ body → P rest → P (body ++ stop :: rest)) (l : List α) : P l := by
  have hbounded : ∀ n, ∀ l : List α, l.length ≤ n → P l := by
    intro n
    induction n with
    | zero =>
      intro l hl
      rw [List.length_eq_zero_iff.mp (Nat.le_zero.mp hl)]
      exact last [] List.not_mem_nil
    | succ n ih =>
      intro l hl
      by_cases hmem : stop ∈ l
      · obtain ⟨body, rest, rfl, hbody⟩ := List.eq_append_cons_of_mem hmem
        refine line body rest hbody (ih rest ?_)
        rw [List.length_append, List.length_cons] at hl
        omega
      · exact last l hmem
  exact hbounded l.length l Nat.le.refl

theorem chunks_append_cons (h : stop ∉ body) :
    chunks stop (body ++ stop :: rest) = (body ++ [stop]) :: chunks stop rest := by
  induction body with
  | nil => rw [List.nil_append, chunks, if_pos rfl, List.nil_append]
  | cons x body ih =>
    rw [List.mem_cons, not_or] at h
    rw [List.cons_append, chunks, if_neg (Ne.symm h.1), ih h.2]
    rfl

theorem chunks_of_notMem (h : stop ∉ l) (hne : l ≠ []) : chunks stop l = [l] := by
  induction l with
  | nil => exact absurd rfl hne
  | cons x l ih =>
    rw [List.mem_cons, not_or] at h
    rw [chunks, if_neg (Ne.symm h.1)]
    cases l with
    | nil => rfl
    | cons y l => rw [ih h.2 (List.cons_ne_nil y l)]

theorem flatten_chunks (l : List α) : (chunks stop l).flatten = l := by
  induction l using line_induction stop with
  | last l h =>
    by_cases hne : l = []
    · rw [hne]
      rfl
    · rw [chunks_of_notMem h hne, List.flatten_cons, List.flatten_nil, List.append_nil]
  | line body rest h ih =>
    rw [chunks_append_cons h, List.flatten_cons, ih, List.append_assoc]
    rfl

/-- Whole lines are split off. -/
theorem chunks_append (h : l = [] ∨ l.getLast? = some stop) (l' : List α) :
    chunks stop (l ++ l') = chunks stop l ++ chunks stop l' := by
  induction l using line_induction stop with
  | last l hmem =>
    rcases h with rfl | h
    · rfl
    · exact absurd (List.mem_of_getLast? h) hmem
  | line body rest hbody ih =>
    have hrest : rest = [] ∨ rest.getLast? = some stop := by
      rcases eq_or_ne rest [] with hnil | hne
      · exact Or.inl hnil
      · rcases h with h | h
        · exact absurd h (List.append_ne_nil_of_right_ne_nil _ (List.cons_ne_nil _ _))
        · right
          obtain ⟨x, rest, rfl⟩ := List.exists_cons_of_ne_nil hne
          rwa [List.getLast?_append_of_ne_nil _ (List.cons_ne_nil _ _),
            List.getLast?_cons_cons] at h
    rw [List.append_assoc, List.cons_append, chunks_append_cons hbody, ih hrest,
      chunks_append_cons hbody, List.cons_append]

/-- A last line counts with or without its end. -/
theorem length_chunks_concat (hne : l ≠ []) (hlast : l.getLast? ≠ some stop) :
    (chunks stop (l ++ [stop])).length = (chunks stop l).length := by
  induction l using line_induction stop with
  | last l h =>
    rw [chunks_append_cons h, chunks_of_notMem h hne]
    rfl
  | line body rest hbody ih =>
    have hrest : rest ≠ [] := by
      rintro rfl
      exact hlast (by rw [List.getLast?_concat])
    have hlast' : rest.getLast? ≠ some stop := by
      obtain ⟨x, rest, rfl⟩ := List.exists_cons_of_ne_nil hrest
      rwa [List.getLast?_append_of_ne_nil _ (List.cons_ne_nil _ _),
        List.getLast?_cons_cons] at hlast
    rw [List.append_assoc, List.cons_append, chunks_append_cons hbody, chunks_append_cons hbody,
      List.length_cons, List.length_cons, ih hrest hlast']

/-! ## Later lines -/

theorem afterLines_append_cons (h : stop ∉ body) (n : ℕ) :
    afterLines stop (n + 1) (body ++ stop :: rest) = afterLines stop n rest := by
  induction body with
  | nil => rw [List.nil_append, afterLines, if_pos rfl]
  | cons x body ih =>
    rw [List.mem_cons, not_or] at h
    rw [List.cons_append, afterLines, if_neg (Ne.symm h.1), ih h.2]

theorem afterLines_of_notMem (h : stop ∉ l) (n : ℕ) : afterLines stop (n + 1) l = [] := by
  induction l with
  | nil => rfl
  | cons x l ih =>
    rw [List.mem_cons, not_or] at h
    rw [afterLines, if_neg (Ne.symm h.1), ih h.2]

theorem chunks_afterLines (n : ℕ) (l : List α) :
    chunks stop (afterLines stop n l) = (chunks stop l).drop n := by
  induction l using line_induction stop generalizing n with
  | last l h =>
    cases n with
    | zero => rw [afterLines, List.drop_zero]
    | succ n =>
      rw [afterLines_of_notMem h]
      by_cases hne : l = []
      · rw [hne]
        rfl
      · rw [chunks_of_notMem h hne, List.drop_succ_cons, List.drop_nil]
        rfl
  | line body rest h ih =>
    cases n with
    | zero => rw [afterLines, List.drop_zero]
    | succ n => rw [afterLines_append_cons h, chunks_append_cons h, List.drop_succ_cons, ih]

/-! ## Readers -/

/-- It makes no difference whether the stops are read as well. -/
theorem filterMap_splitOn {f : List α → Option β} (hnil : f [] = none)
    (hstop : ∀ body, f (body ++ [stop]) = f body) (l : List α) :
    (l.splitOn stop).filterMap f = (chunks stop l).filterMap f := by
  induction l using line_induction stop with
  | last l h =>
    rw [List.splitOn_eq_singleton h]
    by_cases hne : l = []
    · rw [hne, List.filterMap_cons, hnil]
      rfl
    · rw [chunks_of_notMem h hne]
  | line body rest h ih =>
    rw [List.splitOn_append_cons_self_of_not_mem h, chunks_append_cons h, List.filterMap_cons,
      List.filterMap_cons, hstop, ih]

end Terminated
end Bitloops
