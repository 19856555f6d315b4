import Mathlib.Data.List.Basic
import Mathlib.Data.List.Induction
import Mathlib.Data.List.TakeDrop

/-!
# Slices and Patches

Fixed layouts are written by overwriting parts of a block and read by cutting parts out of
it. `slice off len xs` is the part of `len` elements at `off`, `patch off new xs` overwrites
the part at `off` by `new`.

## Main results

* `slice_patch_self`, `slice_patch_front`: the part just written reads back.
* `slice_patch_before`, `slice_patch_after`: every part beside it reads as before.
* `patch_patch`: the last of two writes to one part counts.
* `slice_patchAll_of_mem`: of several writes, one that no other one touches reads back.
-/

namespace Slices

variable {α : Type*} {off len pos : ℕ} {new xs : List α}

/-- The `len` elements at `off`. -/
def slice (off len : ℕ) (xs : List α) : List α := (xs.drop off).take len

/-- Overwrite the elements at `off` by `new`. -/
def patch (off : ℕ) (new xs : List α) : List α :=
  xs.take off ++ new ++ xs.drop (off + new.length)

/-- A part of the front of a list. -/
theorem slice_take {n : ℕ} (h : off + len ≤ n) : slice off len (xs.take n) = slice off len xs := by
  rw [slice, List.drop_take, List.take_take, Nat.min_eq_left (by omega), slice]

/-- A part of one element is the element there. -/
theorem slice_one {a : α} : slice off 1 xs = [a] ↔ xs[off]? = some a := by
  rw [slice, ← List.head?_drop]
  cases xs.drop off <;> simp

/-- A patch within the list keeps its length. -/
theorem length_patch (h : off + new.length ≤ xs.length) :
    (patch off new xs).length = xs.length := by
  simp only [patch, List.length_append, List.length_take, List.length_drop]
  omega

/-- Reading at the place of a patch gives the patch, then what follows it. -/
theorem slice_patch_front (hoff : off ≤ xs.length) (hlen : new.length ≤ len) :
    slice off len (patch off new xs) =
      new ++ slice (off + new.length) (len - new.length) xs := by
  have htake : (xs.take off).length = off := by
    rw [List.length_take]
    omega
  rw [slice, patch, List.append_assoc, List.drop_left' htake, List.take_append,
    List.take_of_length_le hlen, slice]

/-- A patch reads back. -/
theorem slice_patch_self (hoff : off ≤ xs.length) (hlen : new.length = len) :
    slice off len (patch off new xs) = new := by
  rw [slice_patch_front hoff (Nat.le_of_eq hlen), ← hlen, Nat.sub_self, slice, List.take_zero,
    List.append_nil]

/-- A part before a patch reads as before. -/
theorem slice_patch_before (h : off + len ≤ pos) (hpos : pos ≤ xs.length) :
    slice off len (patch pos new xs) = slice off len xs := by
  have htake : (xs.take pos).length = pos := by
    rw [List.length_take]
    omega
  rw [slice, patch, List.append_assoc, List.drop_append_of_le_length (by omega),
    List.take_append_of_le_length (by rw [List.length_drop]; omega), List.drop_take,
    List.take_take, Nat.min_eq_left (by omega), slice]

/-- A part behind a patch reads as before. -/
theorem slice_patch_after (h : pos + new.length ≤ off) (hpos : pos ≤ xs.length) :
    slice off len (patch pos new xs) = slice off len xs := by
  have hlength : (xs.take pos ++ new).length = pos + new.length := by
    rw [List.length_append, List.length_take]
    omega
  rw [slice, patch, List.drop_append, List.drop_of_length_le (by omega), List.nil_append,
    hlength, List.drop_drop, slice]
  congr 2
  omega

/-- Of two patches of one part the last counts. Both replace the same number of
elements. -/
theorem patch_patch {new' : List α} (hlen : new.length = new'.length) (hoff : off ≤ xs.length) :
    patch off new' (patch off new xs) = patch off new' xs := by
  have htake : (xs.take off).length = off := by
    rw [List.length_take]
    omega
  have hlength : (xs.take off ++ new).length = off + new'.length := by
    rw [List.length_append, htake, hlen]
  have hfirst : (patch off new xs).take off = xs.take off := by
    rw [patch, List.append_assoc, List.take_left' htake]
  have hlast : (patch off new xs).drop (off + new'.length) = xs.drop (off + new'.length) := by
    rw [patch, List.drop_left' hlength, hlen]
  rw [patch, hfirst, hlast, patch]

/-- A part of a constant list. -/
theorem slice_replicate {n : ℕ} {a : α} (h : off + len ≤ n) :
    slice off len (List.replicate n a) = List.replicate len a := by
  rw [slice, List.drop_replicate, List.take_replicate, Nat.min_eq_left (by omega)]

/-- Make several patches, one after the other; each is an offset with what is written. -/
def patchAll (fields : List (ℕ × List α)) (xs : List α) : List α :=
  fields.foldl (fun xs field => patch field.1 field.2 xs) xs

variable {fields : List (ℕ × List α)}

/-- The last patch is made upon what the others have made. -/
theorem patchAll_concat (field : ℕ × List α) :
    patchAll (fields ++ [field]) xs = patch field.1 field.2 (patchAll fields xs) := by
  rw [patchAll, List.foldl_append]
  rfl

/-- Every patch lies within a list of `n` elements. -/
def Within (n : ℕ) (fields : List (ℕ × List α)) : Prop :=
  ∀ field ∈ fields, field.1 + field.2.length ≤ n

/-- Patches that lie within a list leave its length, by induction on the patches. -/
theorem Within.length_patchAll (h : Within xs.length fields) :
    (patchAll fields xs).length = xs.length := by
  induction fields using List.reverseRecOn with
  | nil => rfl
  | append_singleton fields field ih =>
      have hfields := ih fun f hf => h f (List.mem_append_left _ hf)
      have hfield := h field (by simp)
      rw [patchAll_concat, length_patch (by rw [hfields]; exact hfield), hfields]

/-- A patch beside the `len` elements at `off`. -/
def Beside (off len : ℕ) (field : ℕ × List α) : Prop :=
  off + len ≤ field.1 ∨ field.1 + field.2.length ≤ off

/-- A patch beside a field leaves it, whether it lies before the field or behind. -/
theorem slice_patch_of_beside {field : ℕ × List α} (h : Beside off len field)
    (hin : field.1 + field.2.length ≤ xs.length) :
    slice off len (patch field.1 field.2 xs) = slice off len xs := by
  rcases h with h | h
  · exact slice_patch_before h (by omega)
  · exact slice_patch_after h (by omega)

/-- A part that no patch touches reads as before. By induction on the patches, from the
last. -/
theorem slice_patchAll_of_beside (hin : Within xs.length fields)
    (h : ∀ field ∈ fields, Beside off len field) :
    slice off len (patchAll fields xs) = slice off len xs := by
  induction fields using List.reverseRecOn with
  | nil => rfl
  | append_singleton fields field ih =>
      have hin' : Within xs.length fields := fun f hf => hin f (List.mem_append_left _ hf)
      have hlen := hin'.length_patchAll
      rw [patchAll_concat, slice_patch_of_beside (h field (by simp))
        (by rw [hlen]; exact hin field (by simp)),
        ih hin' fun f hf => h f (List.mem_append_left _ hf)]

/-- **Fields read back**: a patch that no other one touches. The part read may be longer than what
was written; behind the written part the earlier patches change nothing. -/
theorem slice_patchAll_of_mem (hin : Within xs.length fields) (hmem : (off, new) ∈ fields)
    (hlen : new.length ≤ len)
    (h : ∀ field ∈ fields, field = (off, new) ∨ Beside off len field) :
    slice off len (patchAll fields xs) =
      new ++ slice (off + new.length) (len - new.length) xs := by
  induction fields using List.reverseRecOn with
  | nil => exact absurd hmem List.not_mem_nil
  | append_singleton fields field ih =>
      have hin' : Within xs.length fields := fun f hf => hin f (List.mem_append_left _ hf)
      have h' : ∀ f ∈ fields, f = (off, new) ∨ Beside off len f :=
        fun f hf => h f (List.mem_append_left _ hf)
      have hlength := hin'.length_patchAll
      have hfield := hin field (by simp)
      rw [patchAll_concat]
      by_cases heq : field = (off, new)
      · subst heq
        rw [slice_patch_front (by rw [hlength]; omega) hlen]
        congr 1
        by_cases hmem' : (off, new) ∈ fields
        · have hrest := ih hin' hmem' h'
          have hdrop := congrArg (List.drop new.length) hrest
          rw [List.drop_left, slice, List.drop_take, List.drop_drop] at hdrop
          rw [slice, hdrop]
        · refine slice_patchAll_of_beside hin' ?_
          intro f hf
          have hf' := (h' f hf).resolve_left fun hfeq => hmem' (hfeq ▸ hf)
          rcases hf' with hf' | hf'
          · exact .inl (by omega)
          · exact .inr (by omega)
      · rw [slice_patch_of_beside ((h field (by simp)).resolve_left heq)
          (by rw [hlength]; exact hfield)]
        refine ih hin' ?_ h'
        rcases List.mem_append.mp hmem with hmem | hmem
        · exact hmem
        · exact absurd (List.mem_singleton.mp hmem).symm heq

end Slices
