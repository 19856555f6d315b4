import ContainerRs.Lib.Utf8

/-!
# Byte Offsets in Texts

A string is cut at an offset in bytes, and it can be cut only where a character begins or at
its end: an offset inside a character or past the end is an error, here `none`.

## Main results

* `splitAt_eq_some_iff`: a text is cut at an offset exactly if a part of it in front has that
  many bytes.
* `rfind_append`: the last occurrence of a character, as an offset.
-/

namespace ByteOffsets

open Utf8

/-- The length of a text in bytes. -/
def byteLength (text : List Char) : ℕ := (utf8 text).length

/-- The parts of a text in front of an offset and behind it. -/
def splitAt : List Char → ℕ → Option (List Char × List Char)
  | text, 0 => some ([], text)
  | [], _ + 1 => none
  | c :: text, n + 1 =>
      if byteLength [c] ≤ n + 1 then
        (splitAt text (n + 1 - byteLength [c])).map fun parts => (c :: parts.1, parts.2)
      else none

/-- The part of a text in front of an offset. -/
def sliceTo (text : List Char) (stop : ℕ) : Option (List Char) :=
  (splitAt text stop).map Prod.fst

/-- The part of a text behind an offset. -/
def sliceFrom (text : List Char) (start : ℕ) : Option (List Char) :=
  (splitAt text start).map Prod.snd

/-- The offset of the last occurrence of a character. -/
def rfind (separator : Char) : List Char → Option ℕ
  | [] => none
  | c :: text =>
      match rfind separator text with
      | some i => some (byteLength [c] + i)
      | none => if c = separator then some 0 else none

/-! ### Lengths -/

@[simp] theorem byteLength_nil : byteLength [] = 0 := rfl

/-- Lengths in bytes add up. -/
@[simp] theorem byteLength_append (front back : List Char) :
    byteLength (front ++ back) = byteLength front + byteLength back := by
  rw [byteLength, utf8_append, List.length_append, byteLength, byteLength]

/-- The length of a text is that of its first character and of the rest. -/
theorem byteLength_cons (c : Char) (text : List Char) :
    byteLength (c :: text) = byteLength [c] + byteLength text :=
  byteLength_append [c] text

/-- A character has at least one byte, so that different characters of a text stand at
different offsets. -/
theorem byteLength_singleton_pos (c : Char) : 0 < byteLength [c] :=
  List.length_pos_iff.mpr (utf8_ne_nil (List.cons_ne_nil _ _))

/-! ### Cutting -/

/-- A text is cut at the length of a part of it in front, by induction on that part: each
of its characters takes its own length from the offset. -/
theorem splitAt_append (front back : List Char) :
    splitAt (front ++ back) (byteLength front) = some (front, back) := by
  induction front with
  | nil =>
      rw [List.nil_append, byteLength_nil]
      cases back <;> rfl
  | cons c front ih =>
      obtain ⟨n, hn⟩ : ∃ n, byteLength (c :: front) = n + 1 := by
        have hpos := byteLength_singleton_pos c
        rw [byteLength_cons]
        exact ⟨byteLength [c] + byteLength front - 1, by omega⟩
      have hrest : n + 1 - byteLength [c] = byteLength front := by
        rw [← hn, byteLength_cons, Nat.add_sub_cancel_left]
      have hfits : byteLength [c] ≤ n + 1 := by
        rw [← hn, byteLength_cons c front]
        exact Nat.le_add_right _ _
      rw [hn, List.cons_append, splitAt, if_pos hfits, hrest, ih]
      rfl

/-- **Cutting a text**: an offset is where a character begins, or the end, exactly if a part in
front has that many bytes. -/
theorem splitAt_eq_some_iff {text front back : List Char} {offset : ℕ} :
    splitAt text offset = some (front, back) ↔
      text = front ++ back ∧ byteLength front = offset := by
  constructor
  · intro h
    induction text generalizing front back offset with
    | nil =>
        cases offset with
        | zero =>
            obtain ⟨rfl, rfl⟩ := Prod.mk.inj (Option.some.inj h)
            exact ⟨rfl, rfl⟩
        | succ n => exact absurd h (by simp [splitAt])
    | cons c text ih =>
        cases offset with
        | zero =>
            obtain ⟨rfl, rfl⟩ := Prod.mk.inj (Option.some.inj h)
            exact ⟨rfl, rfl⟩
        | succ n =>
            rw [splitAt] at h
            split at h
            · next hfits =>
                obtain ⟨⟨front', back'⟩, hparts, heq⟩ := Option.map_eq_some_iff.mp h
                obtain ⟨rfl, rfl⟩ := Prod.mk.inj heq
                obtain ⟨rfl, hlength⟩ := ih hparts
                refine ⟨rfl, ?_⟩
                rw [byteLength_cons c front', hlength]
                omega
            · exact absurd h (by simp)
  · rintro ⟨rfl, rfl⟩
    exact splitAt_append front back

/-- A text is cut at the end of its front: the offset is a boundary of characters, and
what stands before it is the front. -/
theorem sliceTo_append (front back : List Char) :
    sliceTo (front ++ back) (byteLength front) = some front := by
  rw [sliceTo, splitAt_append, Option.map_some]

/-- What stands behind the end of the front is the rest of the text. -/
theorem sliceFrom_append (front back : List Char) :
    sliceFrom (front ++ back) (byteLength front) = some back := by
  rw [sliceFrom, splitAt_append, Option.map_some]

/-- What is in front of an offset is a part of the text in front. -/
theorem prefix_of_sliceTo {text front : List Char} {stop : ℕ}
    (h : sliceTo text stop = some front) : front <+: text := by
  obtain ⟨⟨front', back⟩, hsplit, rfl⟩ := Option.map_eq_some_iff.mp h
  exact ⟨back, (splitAt_eq_some_iff.mp hsplit).1.symm⟩

/-! ### Searching -/

/-- A separator is not found in a text without it. -/
theorem rfind_eq_none {separator : Char} {text : List Char} (h : separator ∉ text) :
    rfind separator text = none := by
  induction text with
  | nil => rfl
  | cons c text ih =>
      rw [List.mem_cons, not_or] at h
      rw [rfind, ih h.2]
      exact if_neg (Ne.symm h.1)

/-- **The last occurrence** is the one behind which there is no other. -/
theorem rfind_append {separator : Char} (before : List Char) {after : List Char}
    (h : separator ∉ after) :
    rfind separator (before ++ separator :: after) = some (byteLength before) := by
  induction before with
  | nil =>
      rw [List.nil_append, rfind, rfind_eq_none h]
      exact if_pos rfl
  | cons c before ih =>
      rw [List.cons_append, rfind, ih, byteLength_cons c before]

end ByteOffsets
