import Mathlib.Data.List.TakeDrop
import Mathlib.Data.List.Basic

/-!
# Splitting into Lines

`lines nl xs` cuts a sequence at each newline symbol: one line for every newline, and one
for a nonempty rest after the last of them. The newline itself belongs to no line.

## Main results

* `lines_eq_cons`: a nonempty sequence is its first line, then the lines after the newline.
* `lines_append_of_notMem`: what is put in front of a sequence without a newline only
  lengthens its first line.
* `length_lines_append`: cutting a sequence in the middle of a line adds one line.
* `chomp_concat`, `chomp_of_not_suffix`: of the symbols at the end of a line, one is taken off.
-/

namespace Lines

variable {α : Type*} [DecidableEq α]

/-- The lines of a sequence behind `cur`, the part of the current line read so far. -/
def linesFrom (nl : α) : List α → List α → List (List α)
  | cur, [] => if cur = [] then [] else [cur]
  | cur, x :: xs => if x = nl then cur :: linesFrom nl [] xs else linesFrom nl (cur ++ [x]) xs

/-- The lines of a sequence. -/
def lines (nl : α) (xs : List α) : List (List α) := linesFrom nl [] xs

/-- The part of a sequence up to its first newline. -/
def firstLine (nl : α) (xs : List α) : List α := xs.takeWhile fun x => decide (x ≠ nl)

/-- The part of a sequence after its first newline, empty if there is none. -/
def afterLine (nl : α) (xs : List α) : List α := (xs.dropWhile fun x => decide (x ≠ nl)).tail

variable {nl : α}

@[simp] theorem lines_nil : lines nl [] = [] := rfl

@[simp] theorem firstLine_nil : firstLine nl [] = [] := rfl

@[simp] theorem afterLine_nil : afterLine nl [] = [] := rfl

/-- A line may be empty: the newline comes first. -/
@[simp] theorem firstLine_newline (xs : List α) : firstLine nl (nl :: xs) = [] := by
  simp [firstLine]

/-- Behind an empty line there is what follows its newline. -/
@[simp] theorem afterLine_newline (xs : List α) : afterLine nl (nl :: xs) = xs := by
  simp [afterLine]

/-- An element that is no newline belongs to the first line. -/
theorem firstLine_cons_of_ne {x : α} (h : x ≠ nl) (xs : List α) :
    firstLine nl (x :: xs) = x :: firstLine nl xs := by
  simp [firstLine, h]

/-- An element of the first line is not behind it. -/
theorem afterLine_cons_of_ne {x : α} (h : x ≠ nl) (xs : List α) :
    afterLine nl (x :: xs) = afterLine nl xs := by
  simp [afterLine, h]

/-- A prefix without a newline belongs to the first line. -/
theorem firstLine_append_of_notMem {xs : List α} (h : nl ∉ xs) (ys : List α) :
    firstLine nl (xs ++ ys) = xs ++ firstLine nl ys := by
  induction xs with
  | nil => rfl
  | cons x xs ih =>
      obtain ⟨hx, hxs⟩ := not_or.mp (List.mem_cons.not.mp h)
      rw [List.cons_append, firstLine_cons_of_ne (Ne.symm hx), ih hxs, List.cons_append]

/-- What stands in front of the newline makes no difference to what is behind the line. -/
theorem afterLine_append_of_notMem {xs : List α} (h : nl ∉ xs) (ys : List α) :
    afterLine nl (xs ++ ys) = afterLine nl ys := by
  induction xs with
  | nil => rfl
  | cons x xs ih =>
      obtain ⟨hx, hxs⟩ := not_or.mp (List.mem_cons.not.mp h)
      rw [List.cons_append, afterLine_cons_of_ne (Ne.symm hx), ih hxs]

/-- The lines behind a current line: what is read up to the newline completes it. By
induction on what is read. -/
theorem linesFrom_eq_cons {cur xs : List α} (h : cur ≠ [] ∨ xs ≠ []) :
    linesFrom nl cur xs = (cur ++ firstLine nl xs) :: lines nl (afterLine nl xs) := by
  induction xs generalizing cur with
  | nil =>
      have hcur : cur ≠ [] := h.resolve_right fun hne => hne rfl
      simp [linesFrom, hcur]
  | cons x xs ih =>
      by_cases hx : x = nl
      · subst hx
        simp [linesFrom, lines]
      · rw [linesFrom, if_neg hx, ih (.inl (by simp)), firstLine_cons_of_ne hx,
          afterLine_cons_of_ne hx, List.append_assoc, List.singleton_append]

/-- A nonempty sequence is its first line and the lines after the newline. -/
theorem lines_eq_cons {xs : List α} (h : xs ≠ []) :
    lines nl xs = firstLine nl xs :: lines nl (afterLine nl xs) :=
  linesFrom_eq_cons (.inr h)

/-- A line that ends in a newline is cut off in front. -/
theorem lines_append_newline {xs : List α} (h : nl ∉ xs) (ys : List α) :
    lines nl (xs ++ nl :: ys) = xs :: lines nl ys := by
  rw [lines_eq_cons (by simp), firstLine_append_of_notMem h, afterLine_append_of_notMem h,
    firstLine_newline, afterLine_newline, List.append_nil]

/-- A nonempty prefix without a newline only lengthens the first line. -/
theorem lines_append_of_notMem {xs : List α} (h : nl ∉ xs) (hne : xs ≠ []) (ys : List α) :
    lines nl (xs ++ ys) = (xs ++ firstLine nl ys) :: lines nl (afterLine nl ys) := by
  rw [lines_eq_cons (by simp [hne]), firstLine_append_of_notMem h, afterLine_append_of_notMem h]

/-- A nonempty sequence without a newline is one line. -/
theorem lines_of_notMem {xs : List α} (h : nl ∉ xs) (hne : xs ≠ []) : lines nl xs = [xs] := by
  rw [← List.append_nil xs, lines_append_of_notMem h hne, firstLine_nil, afterLine_nil,
    lines_nil]

/-- A cut within a line: the part before it, which has no newline, does not change the
number of lines of a nonempty rest. -/
theorem length_lines_append {xs ys : List α} (h : nl ∉ xs) (hys : ys ≠ []) :
    (lines nl (xs ++ ys)).length = (lines nl ys).length := by
  rw [lines_eq_cons (by simp [hys]), afterLine_append_of_notMem h, lines_eq_cons hys,
    List.length_cons, List.length_cons]

/-- The sequence without a symbol at its end, which is taken off once if it is there. -/
def chomp (cr : α) (xs : List α) : List α := if [cr] <:+ xs then xs.take (xs.length - 1) else xs

/-- Only the last symbol is taken off, whatever stands in front of it. -/
theorem chomp_concat (cr : α) (xs : List α) : chomp cr (xs ++ [cr]) = xs := by
  rw [chomp, if_pos (List.suffix_append xs [cr]), List.length_append, List.length_singleton,
    Nat.add_sub_cancel, List.take_left]

/-- A sequence that ends in another symbol stays as it is. -/
theorem chomp_of_not_suffix {cr : α} {xs : List α} (h : ¬ [cr] <:+ xs) : chomp cr xs = xs :=
  if_neg h

end Lines
