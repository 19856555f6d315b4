import Mathlib.Data.List.DropRight
import Mathlib.Data.List.Infix

/-!
# Occurrences of a Pattern

`occurrences p xs` counts the positions of `xs` at which `p` stands, overlapping ones
included. A sequence that arrives in pieces can be searched piece by piece if the last
`p.length - 1` symbols are kept: they hold no occurrence themselves, and every later
occurrence begins in them or behind them.

## Main results

* `count_windows`: comparing every window with the pattern counts its occurrences.
* `occurrences_append`: the occurrences in a concatenation are those in the first part and
  those in the kept end of it followed by the second part.
-/

namespace Occurrences

variable {α : Type*}

/-! ### The kept end of a sequence -/

/-- A pattern that fits the first part of a concatenation stands at its front exactly if it
stands at the front of the first part. -/
theorem prefix_append_iff {p xs : List α} (h : p.length ≤ xs.length) (ys : List α) :
    p <+: xs ++ ys ↔ p <+: xs := by
  constructor
  · intro hpre
    exact List.prefix_of_prefix_length_le hpre (List.prefix_append xs ys) h
  · intro hpre
    exact hpre.trans (List.prefix_append xs ys)

/-- The kept end does not depend on a symbol in front of it. -/
theorem rtake_cons {n : ℕ} {xs : List α} (h : n ≤ xs.length) (x : α) :
    (x :: xs).rtake n = xs.rtake n := by
  have hsub : xs.length + 1 - n = xs.length - n + 1 := by omega
  rw [List.rtake, List.rtake, List.length_cons, hsub, List.drop_succ_cons]

/-- A sequence within the bound is its own kept end. -/
theorem rtake_of_length_le {n : ℕ} {xs : List α} (h : xs.length ≤ n) : xs.rtake n = xs := by
  rw [List.rtake, Nat.sub_eq_zero_of_le h, List.drop_zero]

/-- What is kept of the end of a list is no longer than asked for. -/
theorem length_rtake_le (n : ℕ) (xs : List α) : (xs.rtake n).length ≤ n := by
  rw [List.rtake, List.length_drop]
  omega

/-- A second part that is long enough is all that is kept of a concatenation. -/
theorem rtake_append_of_length_le {n : ℕ} (xs : List α) {ys : List α} (h : n ≤ ys.length) :
    (xs ++ ys).rtake n = ys.rtake n := by
  have hsub : xs.length + ys.length - n = xs.length + (ys.length - n) := by omega
  rw [List.rtake, List.rtake, List.length_append, hsub, List.drop_length_add_append]

/-- The kept end of a concatenation is that of the first part's kept end and the second.
By induction on the first part: what it loses is too far from the end to be kept. -/
theorem rtake_append_rtake (n : ℕ) (xs ys : List α) :
    (xs.rtake n ++ ys).rtake n = (xs ++ ys).rtake n := by
  induction xs with
  | nil => rw [List.rtake_nil]
  | cons x xs ih =>
      by_cases hlen : n ≤ xs.length
      · have hlong : n ≤ (xs ++ ys).length := by
          rw [List.length_append]
          omega
        rw [rtake_cons hlen, ih, List.cons_append, rtake_cons hlong]
      · have hshort : (x :: xs).length ≤ n := by
          rw [List.length_cons]
          omega
        rw [rtake_of_length_le hshort]

/-- Of two initial parts the one listed first is a part of the other. -/
theorem pairwise_inits (xs : List α) : xs.inits.Pairwise (· <+: ·) := by
  induction xs with
  | nil => exact List.pairwise_singleton _ _
  | cons x xs ih =>
      rw [List.inits_cons, List.pairwise_cons, List.pairwise_map]
      refine ⟨fun ys _ => List.nil_prefix, ih.imp ?_⟩
      intro ys zs h
      exact (List.prefix_cons_inj x).mpr h

/-! ### Counting -/

variable [DecidableEq α]

/-- The number of positions of a sequence at which the pattern stands. -/
def occurrences (p xs : List α) : ℕ := xs.tails.countP fun rest => decide (p <+: rest)

/-- All runs of `n` consecutive symbols, from left to right; `n` is positive. -/
def windows (n : ℕ) : List α → List (List α)
  | [] => []
  | x :: xs => if n ≤ xs.length + 1 then (x :: xs).take n :: windows n xs else []

variable {p : List α}

/-- A pattern that is not empty does not occur in the empty list. -/
theorem occurrences_nil (hp : p ≠ []) : occurrences p [] = 0 := by
  simp [occurrences, hp]

/-- An occurrence is at the front or further back. -/
theorem occurrences_cons (x : α) (xs : List α) :
    occurrences p (x :: xs) = (if p <+: x :: xs then 1 else 0) + occurrences p xs := by
  rw [occurrences, List.tails, List.countP_cons, Nat.add_comm]
  simp [occurrences]

/-- A sequence shorter than the pattern does not hold it. -/
theorem occurrences_of_length_lt {xs : List α} (h : xs.length < p.length) :
    occurrences p xs = 0 := by
  refine List.countP_eq_zero.mpr ?_
  intro rest hrest hpre
  have hsuffix := ((List.mem_tails rest xs).mp hrest).length_le
  have hfit := (of_decide_eq_true hpre).length_le
  omega

/-- Comparing the windows of the pattern's length with it counts the occurrences, by
induction on the list: the first window is that at the head, and the others are those of
the tail. -/
theorem count_windows (hp : p ≠ []) (xs : List α) :
    (windows p.length xs).countP (fun w => decide (w = p)) = occurrences p xs := by
  induction xs with
  | nil => rw [occurrences_nil hp, windows, List.countP_nil]
  | cons x xs ih =>
      rw [windows]
      split
      · next hlen =>
          have hfront : (x :: xs).take p.length = p ↔ p <+: x :: xs := by
            rw [List.prefix_iff_eq_take, eq_comm]
          rw [List.countP_cons, ih, occurrences_cons, Nat.add_comm]
          simp only [hfront, decide_eq_true_eq]
      · next hlen =>
          have hlt : (x :: xs).length < p.length := by
            rw [List.length_cons]
            omega
          rw [occurrences_of_length_lt hlt, List.countP_nil]

/-- **Searching piece by piece**: behind the first part, the kept end of it is all that the second
part needs. While the kept end lies behind the first element, the first part alone settles whether
the pattern stands there. -/
theorem occurrences_append (hp : p ≠ []) (xs ys : List α) :
    occurrences p (xs ++ ys) =
      occurrences p xs + occurrences p (xs.rtake (p.length - 1) ++ ys) := by
  have hpos := List.length_pos_iff.mpr hp
  induction xs with
  | nil => rw [occurrences_nil hp, Nat.zero_add, List.rtake_nil]
  | cons x xs ih =>
      by_cases hlen : p.length ≤ xs.length + 1
      · have hkeep : p.length - 1 ≤ xs.length := by omega
        rw [rtake_cons hkeep, List.cons_append, occurrences_cons, occurrences_cons, ih,
          ← List.cons_append, Nat.add_assoc]
        have hfront : p <+: x :: xs ++ ys ↔ p <+: x :: xs := prefix_append_iff hlen ys
        rw [if_congr hfront rfl rfl]
      · have hlt : (x :: xs).length < p.length := by
          rw [List.length_cons]
          omega
        rw [occurrences_of_length_lt hlt, rtake_of_length_le (by omega), Nat.zero_add]

/-- More symbols hold no fewer occurrences. -/
theorem occurrences_le_append (hp : p ≠ []) (xs ys : List α) :
    occurrences p xs ≤ occurrences p (xs ++ ys) := by
  rw [occurrences_append hp]
  exact Nat.le_add_right _ _

end Occurrences
