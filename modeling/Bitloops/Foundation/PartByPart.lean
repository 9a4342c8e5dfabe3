import Mathlib.Data.List.Perm.Basic

/-!
# Lists put together of parts

* `flatMap_eq_iff`: when two lists are put together of parts and are equal, their parts are equal,
  provided that none of the parts of the first is longer.
* `flatMap_filter_perm`: the pairs that satisfy a condition, by their first or by their second.
* `count_le_one_of_pairwise`: an entry that is not related to itself stands in the list once.
* `map_filter_eq_iff`: the entries that satisfy a condition are those that satisfy a weaker one.
-/

namespace Bitloops
namespace PartByPart

variable {α β γ : Type*}

theorem length_flatMap_le {f g : α → List β} {as : List α}
    (h : ∀ a ∈ as, (f a).length ≤ (g a).length) :
    (as.flatMap f).length ≤ (as.flatMap g).length := by
  induction as with
  | nil => exact Nat.le_refl 0
  | cons a as ih =>
    obtain ⟨hhead, htail⟩ := List.forall_mem_cons.mp h
    rw [List.flatMap_cons, List.flatMap_cons, List.length_append, List.length_append]
    exact Nat.add_le_add hhead (ih htail)

theorem flatMap_eq_iff {f g : α → List β} {as : List α}
    (h : ∀ a ∈ as, (f a).length ≤ (g a).length) :
    as.flatMap f = as.flatMap g ↔ ∀ a ∈ as, f a = g a := by
  refine ⟨fun heq => ?_, fun heq => List.flatMap_congr heq⟩
  induction as with
  | nil => exact fun a ha => absurd ha List.not_mem_nil
  | cons a as ih =>
    obtain ⟨hhead, htail⟩ := List.forall_mem_cons.mp h
    rw [List.flatMap_cons, List.flatMap_cons] at heq
    have hlength : (f a).length = (g a).length := by
      have htotal := congrArg List.length heq
      rw [List.length_append, List.length_append] at htotal
      have hrest := length_flatMap_le htail
      omega
    obtain ⟨heqHead, heqTail⟩ := List.append_inj heq hlength
    exact List.forall_mem_cons.mpr ⟨heqHead, ih htail heqTail⟩

theorem filterMap_eq_map_iff {f : α → Option β} {g : α → β} {as : List α} :
    as.filterMap f = as.map g ↔ ∀ a ∈ as, f a = some (g a) := by
  rw [← List.flatMap_pure_eq_map, List.filterMap_eq_flatMap_toList, flatMap_eq_iff]
  · exact forall₂_congr fun a _ => Option.toList_eq_singleton_iff
  · intro a _
    cases f a with
    | none => exact Nat.zero_le _
    | some b => exact Nat.le_refl 1

theorem flatMap_filter_perm (as : List α) (bs : List β) (p : α → β → Bool) (f : α → β → γ) :
    (as.flatMap fun a => (bs.filter (p a)).map (f a)).Perm
      (bs.flatMap fun b => (as.filter fun a => p a b).map fun a => f a b) := by
  induction as with
  | nil => simp
  | cons a as ih =>
    have hfirst : ∀ bs : List β, (bs.filter (p a)).map (f a) =
        bs.flatMap fun b => if p a b then [f a b] else [] := by
      intro bs
      induction bs with
      | nil => rfl
      | cons b bs ihb =>
        rw [List.flatMap_cons, ← ihb, List.filter_cons]
        split_ifs <;> rfl
    have hsplit : (bs.flatMap fun b => ((a :: as).filter fun a => p a b).map fun a => f a b) =
        bs.flatMap fun b => (if p a b then [f a b] else []) ++
          (as.filter fun a => p a b).map fun a => f a b := by
      refine List.flatMap_congr fun b _ => ?_
      rw [List.filter_cons]
      split_ifs <;> rfl
    rw [List.flatMap_cons, hfirst, hsplit]
    exact (ih.append_left _).trans (List.flatMap_append_perm bs _ _)

theorem count_le_one_of_pairwise [BEq α] [LawfulBEq α] {R : α → α → Prop} {as : List α} {a : α}
    (h : as.Pairwise R) (ha : ¬ R a a) : as.count a ≤ 1 := by
  by_contra hmore
  have htwo : [a, a].Sublist as := List.replicate_sublist_iff.mpr (Nat.lt_of_not_le hmore)
  exact ha (List.pairwise_pair.mp (h.sublist htwo))

theorem filter_eq_filter_iff {p q : α → Bool} {l : List α} :
    l.filter p = l.filter q ↔ ∀ x ∈ l, p x = q x := by
  refine ⟨fun h x hx => ?_, List.filter_congr⟩
  have hmem : x ∈ l.filter p ↔ x ∈ l.filter q := by rw [h]
  simp only [List.mem_filter, hx, true_and] at hmem
  exact Bool.eq_iff_iff.mpr hmem

theorem map_filter_eq_iff {p q : α → Bool} {l : List α} {f : α → β} (h : ∀ x, p x → q x) :
    (l.filter p).map f = (l.filter q).map f ↔ ∀ x ∈ l, q x → p x := by
  constructor
  · intro heq x hx hq
    have hlength := congrArg List.length heq
    rw [List.length_map, List.length_map] at hlength
    have hsame := (List.monotone_filter_right l h).eq_of_length hlength
    rw [filter_eq_filter_iff.mp hsame x hx]
    exact hq
  · intro hback
    refine congrArg (List.map f) (List.filter_congr fun x hx => ?_)
    exact Bool.eq_iff_iff.mpr ⟨h x, hback x hx⟩

end PartByPart
end Bitloops
