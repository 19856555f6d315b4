import Mathlib.Algebra.Group.Nat.Defs
import Mathlib.Data.List.Induction
import Mathlib.Tactic.Ring

/-!
# Byte Strings and Fixed-Width Positional Numbers

Byte strings are lists of `UInt8`. A number of fixed width in base `b` is the list of its
digits, most significant first: `digitsBE b w n` writes `w` digits of `n`, `valueBE b ds`
reads digits back. Octal header fields (`b = 8`) and big-endian machine words (`b = 256`)
are both instances.

## Main results

* `valueBE_digitsBE`: reading back gives `n` modulo `b ^ w`.
* `valueBE_digitsBE_of_lt`: and `n` itself when it fits the width.
-/

/-- A byte string. -/
abbrev Bytes := List UInt8

namespace Positional

/-- The `w` least significant digits of `n` in base `b`, most significant first. -/
def digitsBE (b : ℕ) : ℕ → ℕ → List ℕ
  | 0, _ => []
  | w + 1, n => digitsBE b w (n / b) ++ [n % b]

/-- The number that a list of digits denotes, most significant first. -/
def valueBE (b : ℕ) (ds : List ℕ) : ℕ :=
  ds.foldl (fun acc d => acc * b + d) 0

/-- A number is written with as many digits as asked for. -/
@[simp] theorem length_digitsBE (b w n : ℕ) : (digitsBE b w n).length = w := by
  induction w generalizing n with
  | zero => rfl
  | succ w ih => rw [digitsBE, List.length_append, ih, List.length_singleton]

@[simp] theorem valueBE_nil (b : ℕ) : valueBE b [] = 0 := rfl

/-- A digit at the end: the value before it is shifted by one place. -/
@[simp] theorem valueBE_concat (b : ℕ) (ds : List ℕ) (d : ℕ) :
    valueBE b (ds ++ [d]) = valueBE b ds * b + d := by
  rw [valueBE, List.foldl_append]
  rfl

/-- Digits only ever add to what is in front of them. -/
theorem le_foldl_digits {b : ℕ} (hb : 0 < b) (ds : List ℕ) (acc : ℕ) :
    acc ≤ ds.foldl (fun acc d => acc * b + d) acc := by
  induction ds generalizing acc with
  | nil => exact Nat.le_refl _
  | cons d ds ih =>
      have hmul : acc ≤ acc * b := Nat.le_mul_of_pos_right acc hb
      exact Nat.le_trans (Nat.le_trans hmul (Nat.le_add_right _ d)) (ih _)

/-- Every written digit is below the base. -/
theorem lt_of_mem_digitsBE {b w n d : ℕ} (hb : 0 < b) (h : d ∈ digitsBE b w n) : d < b := by
  induction w generalizing n with
  | zero => exact absurd h List.not_mem_nil
  | succ w ih =>
      rw [digitsBE, List.mem_append, List.mem_singleton] at h
      rcases h with h | rfl
      · exact ih h
      · exact Nat.mod_lt n hb

/-- Reading back the digits gives the number modulo the capacity of the field. -/
theorem valueBE_digitsBE (b w n : ℕ) : valueBE b (digitsBE b w n) = n % b ^ w := by
  induction w generalizing n with
  | zero => rw [digitsBE, valueBE_nil, pow_zero, Nat.mod_one]
  | succ w ih =>
      rw [digitsBE, valueBE_concat, ih, pow_succ', Nat.mod_mul]
      ring

/-- A number that fits the field is read back exactly. -/
theorem valueBE_digitsBE_of_lt {b w n : ℕ} (h : n < b ^ w) :
    valueBE b (digitsBE b w n) = n := by
  rw [valueBE_digitsBE, Nat.mod_eq_of_lt h]

/-- Base 256 digits survive being written as bytes. -/
theorem map_toNat_map_ofNat_digitsBE (w n : ℕ) :
    ((digitsBE 256 w n).map UInt8.ofNat).map UInt8.toNat = digitsBE 256 w n := by
  rw [List.map_map]
  refine (List.map_congr_left ?_).trans (List.map_id _)
  intro d hd
  have hlt : d < 256 := lt_of_mem_digitsBE (by omega) hd
  simp only [Function.comp_apply, UInt8.toNat_ofNat', id_eq]
  omega

end Positional
