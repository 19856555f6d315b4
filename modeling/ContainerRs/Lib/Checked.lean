import ContainerRs.Lib.Slices
import Mathlib.Algebra.BigOperators.Group.List.Basic
import Mathlib.Algebra.Ring.Nat

/-!
# Checked Arithmetic and Slices

Operations on machine sizes and on byte blocks that have no result when they would overflow,
underflow or leave the block.

## Main results

* `checkedSum_of_le`: a sum that stays within the bound is computed.
* `sliceRange_of_le`: a range within the block is cut out.
-/

namespace Checked

variable {α : Type*}

/-- The largest 32-bit number. -/
def u32Max : ℕ := 2 ^ 32 - 1

/-- The largest 64-bit number. -/
def u64Max : ℕ := 2 ^ 64 - 1

/-- The largest `usize`. -/
def usizeMax : ℕ := 2 ^ 64 - 1

/-- The sum of two numbers, if it is at most `max`. -/
def checkedAdd (max a b : ℕ) : Option ℕ := if a + b ≤ max then some (a + b) else none

/-- The sum of two numbers, at most `max`. -/
def saturatingAdd (max a b : ℕ) : ℕ := min (a + b) max

/-- The product of two numbers, if it is at most `max`. -/
def checkedMul (max a b : ℕ) : Option ℕ := if a * b ≤ max then some (a * b) else none

/-- The difference of two sizes, if it is not negative. -/
def checkedSub (a b : ℕ) : Option ℕ := if b ≤ a then some (a - b) else none

/-- The sum of a list, if it never exceeds `max`. -/
def checkedSum (max : ℕ) : List ℕ → Option ℕ := List.foldlM (checkedAdd max) 0

/-- The first `n` elements of a block, if it holds as many. -/
def sliceTo (xs : List α) (n : ℕ) : Option (List α) :=
  if n ≤ xs.length then some (xs.take n) else none

/-- The elements of a block from index `lo` to `hi`, if these are within it. -/
def sliceRange (xs : List α) (lo hi : ℕ) : Option (List α) :=
  if lo ≤ hi ∧ hi ≤ xs.length then some (Slices.slice lo (hi - lo) xs) else none

/-- Overwrite the elements of a block from index `lo` to `hi`, if these are within it and as
many as the new ones. -/
def copyRange (xs : List α) (lo hi : ℕ) (new : List α) : Option (List α) :=
  if lo ≤ hi ∧ hi ≤ xs.length ∧ new.length = hi - lo then some (Slices.patch lo new xs)
  else none

/-- An addition succeeds exactly if the sum is in range, and gives the sum. -/
theorem checkedAdd_eq_some {max a b c : ℕ} :
    checkedAdd max a b = some c ↔ a + b = c ∧ c ≤ max := by
  rw [checkedAdd]
  split
  · rw [Option.some.injEq]
    exact ⟨fun h => ⟨h, by omega⟩, And.left⟩
  · simp only [reduceCtorEq, false_iff]
    omega

/-- Adding up in turn never overflows if the sum of all is in range, since the sums on the
way are not above it. -/
theorem foldlM_checkedAdd {max : ℕ} (xs : List ℕ) {acc : ℕ} (h : acc + xs.sum ≤ max) :
    xs.foldlM (checkedAdd max) acc = some (acc + xs.sum) := by
  induction xs generalizing acc with
  | nil => rfl
  | cons x xs ih =>
      rw [List.sum_cons] at h ⊢
      rw [List.foldlM_cons, checkedAdd, if_pos (by omega), Option.bind_eq_bind,
        Option.bind_some, ih (by omega), Nat.add_assoc]

/-- A sum that stays within the bound is computed. -/
theorem checkedSum_of_le {max : ℕ} {xs : List ℕ} (h : xs.sum ≤ max) :
    checkedSum max xs = some xs.sum := by
  rw [checkedSum, foldlM_checkedAdd xs (by omega), Nat.zero_add]

/-- A range within the block is cut out. -/
theorem sliceRange_of_le {xs : List α} {lo hi : ℕ} (hlo : lo ≤ hi) (hhi : hi ≤ xs.length) :
    sliceRange xs lo hi = some (Slices.slice lo (hi - lo) xs) := if_pos ⟨hlo, hhi⟩

/-- A range within the block is overwritten by as many elements. -/
theorem copyRange_of_le {xs new : List α} {lo hi : ℕ} (hlo : lo ≤ hi) (hhi : hi ≤ xs.length)
    (hnew : new.length = hi - lo) : copyRange xs lo hi new = some (Slices.patch lo new xs) :=
  if_pos ⟨hlo, hhi, hnew⟩

end Checked
