import Mathlib.Algebra.Order.Ring.Defs
import Mathlib.Tactic.Linarith

/-!
# Rectangles in rows

Rectangles with sides parallel to the axes, and how they are put side by side.

* `Apart`: one rectangle ends where the other begins, in one of the two directions.
* `Within`: a rectangle lies in a frame; `Apart.of_within` goes from frames to what is in them.
* `shelve`: rectangles side by side in rows, with `pairwise_shelve` and `le_of_mem_shelve`.
* `stackOffset`: where lengths begin when they are put one after the other, `stackOffset_add_le`.
-/

namespace Bitloops
namespace Packing

variable {K : Type*}

@[ext]
structure Rect (K : Type*) where
  x : K
  z : K
  width : K
  depth : K

/-! ## Rectangles -/

section Rect

variable [CommRing K] [LinearOrder K] [IsStrictOrderedRing K] {a b frame frame' : Rect K} {dx dz : K}

def Rect.move (dx dz : K) (a : Rect K) : Rect K := { a with x := a.x + dx, z := a.z + dz }

/-- The rectangles have no inner point in common. -/
def Apart (a b : Rect K) : Prop :=
  a.x + a.width ≤ b.x ∨ b.x + b.width ≤ a.x ∨ a.z + a.depth ≤ b.z ∨ b.z + b.depth ≤ a.z

structure Within (a frame : Rect K) : Prop where
  left : frame.x ≤ a.x
  right : a.x + a.width ≤ frame.x + frame.width
  front : frame.z ≤ a.z
  back : a.z + a.depth ≤ frame.z + frame.depth

theorem Apart.symm (h : Apart a b) : Apart b a := by
  rcases h with h | h | h | h
  · exact Or.inr (Or.inl h)
  · exact Or.inl h
  · exact Or.inr (Or.inr (Or.inr h))
  · exact Or.inr (Or.inr (Or.inl h))

/-- Moving both rectangles changes nothing. -/
theorem apart_move_iff : Apart (a.move dx dz) (b.move dx dz) ↔ Apart a b := by
  simp only [Apart, Rect.move, add_right_comm _ dx, add_right_comm _ dz, add_le_add_iff_right]

theorem Apart.of_within (h : Apart frame frame') (ha : Within a frame) (hb : Within b frame') :
    Apart a b := by
  rcases h with h | h | h | h
  · exact Or.inl (ha.right.trans (h.trans hb.left))
  · exact Or.inr (Or.inl (hb.right.trans (h.trans ha.left)))
  · exact Or.inr (Or.inr (Or.inl (ha.back.trans (h.trans hb.front))))
  · exact Or.inr (Or.inr (Or.inr (hb.back.trans (h.trans ha.front))))

theorem Within.move (h : Within a frame) (dx dz : K) :
    Within (a.move dx dz) (frame.move dx dz) := by
  obtain ⟨hleft, hright, hfront, hback⟩ := h
  constructor <;> simp only [Rect.move] <;> linarith

theorem Within.trans (h : Within a b) (h' : Within b frame) : Within a frame :=
  ⟨h'.left.trans h.left, h.right.trans h'.right, h'.front.trans h.front, h.back.trans h'.back⟩

end Rect

/-! ## Rows -/

/-- Where the next rectangle goes in its row, how many stand in the row, and how deep it is. -/
structure Shelf (K : Type*) where
  currentX : K
  currentZ : K
  rowCount : ℕ
  rowDepth : K

section Shelf

variable [CommRing K] [LinearOrder K] [IsStrictOrderedRing K]

/-- A full row is followed by a new one. -/
def Shelf.nextRow (columns : ℕ) (start gap : K) (shelf : Shelf K) : Shelf K :=
  if shelf.rowCount = columns then
    { currentX := start
      currentZ := shelf.currentZ + (shelf.rowDepth + gap)
      rowCount := 0
      rowDepth := 0 }
  else shelf

def Shelf.advance (width depth gap : K) (shelf : Shelf K) : Shelf K :=
  { currentX := shelf.currentX + (width + gap)
    currentZ := shelf.currentZ
    rowCount := shelf.rowCount + 1
    rowDepth := max shelf.rowDepth depth }

/-- Rectangles of the given sizes, one after the other. -/
def shelve (columns : ℕ) (start gap : K) : Shelf K → List (K × K) → List (Rect K)
  | _, [] => []
  | shelf, (width, depth) :: sizes =>
    let shelf := shelf.nextRow columns start gap
    ⟨shelf.currentX, shelf.currentZ, width, depth⟩ ::
      shelve columns start gap (shelf.advance width depth gap) sizes

variable {columns : ℕ} {start gap : K} {shelf : Shelf K} {a : Rect K}

/-- The rectangle stands in a row before, or in the row of the shelf. -/
def Shelf.Passed (shelf : Shelf K) (a : Rect K) : Prop :=
  a.z + a.depth ≤ shelf.currentZ ∨
    a.x + a.width ≤ shelf.currentX ∧ a.z = shelf.currentZ ∧ a.depth ≤ shelf.rowDepth

structure Shelf.After (start : K) (shelf : Shelf K) : Prop where
  x : start ≤ shelf.currentX
  z : start ≤ shelf.currentZ
  depth : 0 ≤ shelf.rowDepth

theorem Shelf.After.nextRow (h : shelf.After start) (hgap : 0 ≤ gap) :
    (shelf.nextRow columns start gap).After start := by
  rw [Shelf.nextRow]
  split_ifs
  · have hz := h.z
    have hdepth := h.depth
    exact ⟨le_refl _, by change start ≤ shelf.currentZ + (shelf.rowDepth + gap); linarith,
      le_refl _⟩
  · exact h

theorem Shelf.After.advance (h : shelf.After start) (hgap : 0 ≤ gap) {width depth : K}
    (hwidth : 0 ≤ width) : (shelf.advance width depth gap).After start := by
  have hx := h.x
  refine ⟨?_, h.z, h.depth.trans (le_max_left _ _)⟩
  change start ≤ shelf.currentX + (width + gap)
  linarith

theorem Shelf.Passed.nextRow (h : shelf.Passed a) (hafter : shelf.After start) (hgap : 0 ≤ gap) :
    (shelf.nextRow columns start gap).Passed a := by
  rw [Shelf.nextRow]
  split_ifs
  · left
    change a.z + a.depth ≤ shelf.currentZ + (shelf.rowDepth + gap)
    have hdepth := hafter.depth
    rcases h with h | ⟨-, hz, hle⟩
    · linarith
    · linarith
  · exact h

theorem Shelf.Passed.advance (h : shelf.Passed a) (hgap : 0 ≤ gap) {width depth : K}
    (hwidth : 0 ≤ width) : (shelf.advance width depth gap).Passed a := by
  rcases h with h | ⟨hx, hz, hle⟩
  · exact Or.inl h
  · refine Or.inr ⟨?_, hz, hle.trans (le_max_left _ _)⟩
    change a.x + a.width ≤ shelf.currentX + (width + gap)
    linarith

/-- The rectangle at the cursor is passed when the cursor goes on. -/
theorem Shelf.passed_advance (shelf : Shelf K) (hgap : 0 ≤ gap) (width depth : K) :
    (shelf.advance width depth gap).Passed ⟨shelf.currentX, shelf.currentZ, width, depth⟩ := by
  refine Or.inr ⟨?_, rfl, le_max_right _ _⟩
  change shelf.currentX + width ≤ shelf.currentX + (width + gap)
  linarith

theorem Shelf.Passed.apart (h : shelf.Passed a) (width depth : K) :
    Apart a ⟨shelf.currentX, shelf.currentZ, width, depth⟩ := by
  rcases h with h | ⟨h, -, -⟩
  · exact Or.inr (Or.inr (Or.inl h))
  · exact Or.inl h

/-- What is passed stays apart from all that comes. -/
theorem apart_of_mem_shelve (hgap : 0 ≤ gap) {sizes : List (K × K)}
    (hsizes : ∀ size ∈ sizes, 0 ≤ size.1) :
    ∀ {shelf : Shelf K}, shelf.After start → shelf.Passed a →
      ∀ b ∈ shelve columns start gap shelf sizes, Apart a b := by
  induction sizes with
  | nil => exact fun _ _ _ hb => absurd hb List.not_mem_nil
  | cons size sizes ih =>
    intro shelf hafter hpassed
    obtain ⟨width, depth⟩ := size
    obtain ⟨hwidth, htail⟩ := List.forall_mem_cons.mp hsizes
    have hpassed' := @Shelf.Passed.nextRow _ _ _ _ columns _ _ _ _ hpassed hafter hgap
    rw [shelve, List.forall_mem_cons]
    exact ⟨hpassed'.apart width depth,
      ih htail ((hafter.nextRow hgap).advance hgap hwidth) (hpassed'.advance hgap hwidth)⟩

/-- Rectangles in rows are apart. -/
theorem pairwise_shelve (hgap : 0 ≤ gap) {sizes : List (K × K)}
    (hsizes : ∀ size ∈ sizes, 0 ≤ size.1) :
    ∀ {shelf : Shelf K}, shelf.After start →
      (shelve columns start gap shelf sizes).Pairwise Apart := by
  induction sizes with
  | nil => exact fun _ => List.Pairwise.nil
  | cons size sizes ih =>
    intro shelf hafter
    obtain ⟨width, depth⟩ := size
    obtain ⟨hwidth, htail⟩ := List.forall_mem_cons.mp hsizes
    have hrow := @Shelf.After.nextRow _ _ _ _ columns _ _ _ hafter hgap
    have hafter' := @Shelf.After.advance _ _ _ _ _ _ _ hrow hgap _ depth hwidth
    rw [shelve]
    exact List.pairwise_cons.mpr ⟨apart_of_mem_shelve hgap htail hafter'
      ((shelf.nextRow columns start gap).passed_advance hgap width depth), ih htail hafter'⟩

/-- No rectangle stands before the start. -/
theorem le_of_mem_shelve (hgap : 0 ≤ gap) {sizes : List (K × K)}
    (hsizes : ∀ size ∈ sizes, 0 ≤ size.1) :
    ∀ {shelf : Shelf K}, shelf.After start →
      ∀ b ∈ shelve columns start gap shelf sizes, start ≤ b.x ∧ start ≤ b.z := by
  induction sizes with
  | nil => exact fun _ _ hb => absurd hb List.not_mem_nil
  | cons size sizes ih =>
    intro shelf hafter
    obtain ⟨width, depth⟩ := size
    obtain ⟨hwidth, htail⟩ := List.forall_mem_cons.mp hsizes
    have hafter' := @Shelf.After.nextRow _ _ _ _ columns _ _ _ hafter hgap
    rw [shelve, List.forall_mem_cons]
    exact ⟨⟨hafter'.x, hafter'.z⟩, ih htail (hafter'.advance hgap hwidth)⟩

end Shelf

/-! ## One after the other -/

section Stack

variable [CommRing K] [LinearOrder K] [IsStrictOrderedRing K]

/-- Where a length begins after the lengths before it. -/
def stackOffset (gap : K) (lengths : List K) (i : ℕ) : K :=
  ((lengths.take i).map (· + gap)).sum

theorem stackOffset_zero (gap : K) (lengths : List K) : stackOffset gap lengths 0 = 0 := by
  rw [stackOffset, List.take_zero, List.map_nil, List.sum_nil]

theorem stackOffset_succ {gap : K} {lengths : List K} {i : ℕ} (hi : i < lengths.length) :
    stackOffset gap lengths (i + 1) = stackOffset gap lengths i + (lengths[i] + gap) := by
  rw [stackOffset, List.take_succ_eq_append_getElem hi, List.map_append, List.sum_append,
    stackOffset, List.map_singleton, List.sum_singleton]

variable {gap : K} {lengths : List K}

theorem stackOffset_mono (hgap : 0 ≤ gap) (hlengths : ∀ length ∈ lengths, 0 ≤ length) {i j : ℕ}
    (hij : i ≤ j) (hj : j ≤ lengths.length) :
    stackOffset gap lengths i ≤ stackOffset gap lengths j := by
  induction j, hij using Nat.le_induction with
  | base => exact le_refl _
  | succ j hij ih =>
    rw [stackOffset_succ hj]
    have hlength := hlengths _ (List.getElem_mem hj)
    have hle := ih (by omega)
    linarith

/-- A length ends where a later one begins, or before. -/
theorem stackOffset_add_le (hgap : 0 ≤ gap) (hlengths : ∀ length ∈ lengths, 0 ≤ length) {i j : ℕ}
    (hij : i < j) (hj : j < lengths.length) :
    stackOffset gap lengths i + lengths[i] ≤ stackOffset gap lengths j := by
  have hle := stackOffset_mono hgap hlengths (Nat.succ_le_of_lt hij) hj.le
  rw [Nat.succ_eq_add_one, stackOffset_succ (by omega)] at hle
  linarith

theorem stackOffset_nonneg (hgap : 0 ≤ gap) (hlengths : ∀ length ∈ lengths, 0 ≤ length) {i : ℕ}
    (hi : i ≤ lengths.length) : 0 ≤ stackOffset gap lengths i := by
  rw [← stackOffset_zero gap lengths]
  exact stackOffset_mono hgap hlengths (Nat.zero_le i) hi

end Stack

end Packing
end Bitloops
