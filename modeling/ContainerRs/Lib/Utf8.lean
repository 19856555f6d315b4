import ContainerRs.Lib.Bytes

/-!
# UTF-8

The bytes of a text are those of its characters, one after the other. The first byte of a
character is no continuation byte, all others are, and a first byte below 128 stands alone.

## Main results

* `fromUtf8_utf8`: a text is read back from its bytes.
* `exists_char_of_utf8`: a byte below 128 is a character of the text.
* `utf8_adjacent`: behind such a byte no continuation byte follows.
-/

namespace Utf8

/-- The bytes of a text. -/
def utf8 (text : List Char) : Bytes := text.flatMap String.utf8EncodeChar

/-- The text of bytes that are UTF-8. -/
def fromUtf8 (bytes : Bytes) : Option (List Char) :=
  bytes.toByteArray.utf8Decode?.map Array.toList

/-- A byte that continues a character. -/
def IsContinuation (b : UInt8) : Prop := 128 ≤ b.toNat ∧ b.toNat < 192

instance (b : UInt8) : Decidable (IsContinuation b) := inferInstanceAs (Decidable (_ ∧ _))

@[simp] theorem utf8_nil : utf8 [] = [] := rfl

/-- The bytes of a text are those of its first character and those of the rest. -/
theorem utf8_cons (c : Char) (text : List Char) :
    utf8 (c :: text) = String.utf8EncodeChar c ++ utf8 text := rfl

/-- A text is read back from its bytes. -/
theorem fromUtf8_utf8 (text : List Char) : fromUtf8 (utf8 text) = some text := by
  rw [fromUtf8, show (utf8 text).toByteArray = text.utf8Encode from rfl,
    List.utf8Decode?_utf8Encode]
  rfl

/-- The bytes of two texts in a row are those of the first and those of the second. -/
theorem utf8_append (text text' : List Char) : utf8 (text ++ text') = utf8 text ++ utf8 text' :=
  List.flatMap_append

/-- The bytes of one character: one that is no continuation byte, then only bytes from 128
on; there are none if the first one is below 128. -/
theorem utf8EncodeChar_spec (c : Char) : ∃ first rest,
    String.utf8EncodeChar c = first :: rest ∧ ¬ IsContinuation first ∧
      (∀ b ∈ rest, 128 ≤ b.toNat) ∧ (first.toNat < 128 → rest = []) := by
  rw [String.utf8EncodeChar]
  generalize c.val.toNat = v
  have hofNat : ∀ n, (UInt8.ofNat n).toNat = n % 256 := fun n => UInt8.toNat_ofNat'
  split
  · refine ⟨_, _, rfl, ?_, fun b hb => absurd hb List.not_mem_nil, fun _ => rfl⟩
    rw [IsContinuation, hofNat]
    omega
  split
  · refine ⟨_, _, rfl, ?_, ?_, ?_⟩
    · rw [IsContinuation, hofNat]
      omega
    · intro b hb
      obtain rfl := List.mem_singleton.mp hb
      rw [hofNat]
      omega
    · intro hlt
      rw [hofNat] at hlt
      omega
  split
  · refine ⟨_, _, rfl, ?_, ?_, ?_⟩
    · rw [IsContinuation, hofNat]
      omega
    · intro b hb
      simp only [List.mem_cons, List.not_mem_nil, or_false] at hb
      rcases hb with rfl | rfl <;> rw [hofNat] <;> omega
    · intro hlt
      rw [hofNat] at hlt
      omega
  · refine ⟨_, _, rfl, ?_, ?_, ?_⟩
    · rw [IsContinuation, hofNat]
      omega
    · intro b hb
      simp only [List.mem_cons, List.not_mem_nil, or_false] at hb
      rcases hb with rfl | rfl | rfl <;> rw [hofNat] <;> omega
    · intro hlt
      rw [hofNat] at hlt
      omega

/-- A character of ASCII is a single byte. -/
theorem utf8EncodeChar_of_lt {c : Char} (h : c.toNat < 128) :
    String.utf8EncodeChar c = [UInt8.ofNat c.toNat] := by
  rw [String.utf8EncodeChar, if_pos (by change c.toNat ≤ 127; omega)]
  rfl

/-- Text of ASCII has a byte for each character. -/
theorem utf8_of_ascii {text : List Char} (h : ∀ c ∈ text, c.toNat < 128) :
    utf8 text = text.map fun c => UInt8.ofNat c.toNat := by
  induction text with
  | nil => rfl
  | cons c text ih =>
      rw [List.forall_mem_cons] at h
      rw [utf8_cons, utf8EncodeChar_of_lt h.1, ih h.2]
      rfl

/-- Text that is not empty has bytes. -/
theorem utf8_ne_nil {text : List Char} (h : text ≠ []) : utf8 text ≠ [] := by
  obtain ⟨c, text, rfl⟩ := List.exists_cons_of_ne_nil h
  obtain ⟨first, rest, hchar, -⟩ := utf8EncodeChar_spec c
  rw [utf8_cons, hchar]
  exact List.cons_ne_nil _ _

/-- A text does not begin with a continuation byte. -/
theorem not_isContinuation_of_utf8 {text : List Char} {b : UInt8} {post : Bytes}
    (h : utf8 text = b :: post) : ¬ IsContinuation b := by
  cases text with
  | nil => exact absurd h (by simp)
  | cons c text =>
      obtain ⟨first, rest, hchar, hfirst, -⟩ := utf8EncodeChar_spec c
      rw [utf8_cons, hchar, List.cons_append, List.cons.injEq] at h
      exact h.1 ▸ hfirst

/-- A character that is a single byte below 128 has the number of that byte. The encodings
of larger characters have more than one byte. -/
theorem toNat_of_utf8EncodeChar {c : Char} {b : UInt8} (h : String.utf8EncodeChar c = [b]) :
    c.toNat = b.toNat := by
  rw [String.utf8EncodeChar] at h
  have hc : c.val.toNat = c.toNat := rfl
  revert h
  generalize c.val.toNat = v at hc
  intro h
  split at h
  · obtain ⟨rfl, -⟩ := List.cons.inj h
    rw [UInt8.toNat_ofNat']
    omega
  split at h
  · exact absurd (congrArg List.length h) (by simp)
  split at h
  · exact absurd (congrArg List.length h) (by simp)
  · exact absurd (congrArg List.length h) (by simp)

/-- **A byte below 128 is a character**: the text is cut in front of it and behind it. By
induction on the text: the byte is its first character, lies in the rest, or would be one
of the later bytes of the first character, all of which are 128 or more. -/
theorem exists_char_of_utf8 {text : List Char} {b : UInt8} {pre post : Bytes}
    (h : utf8 text = pre ++ b :: post) (hb : b.toNat < 128) :
    ∃ before c after, text = before ++ c :: after ∧ c.toNat = b.toNat ∧
      utf8 before = pre ∧ utf8 after = post := by
  induction text generalizing pre with
  | nil => exact absurd h.symm (by simp)
  | cons c text ih =>
      obtain ⟨first, rest, hchar, -, hrest, halone⟩ := utf8EncodeChar_spec c
      rw [utf8_cons, hchar, List.cons_append] at h
      cases pre with
      | nil =>
          obtain ⟨rfl, htext⟩ := List.cons.inj h
          rw [halone hb] at hchar htext
          exact ⟨[], c, text, rfl, toNat_of_utf8EncodeChar hchar, rfl, htext⟩
      | cons x pre =>
          obtain ⟨rfl, htext⟩ := List.cons.inj h
          rcases List.append_eq_append_iff.mp htext with ⟨mid, rfl, hmid⟩ | ⟨mid, hmid, hpost⟩
          · obtain ⟨before, c', after, rfl, hc', rfl, rfl⟩ := ih hmid
            refine ⟨c :: before, c', after, rfl, hc', ?_, rfl⟩
            rw [utf8_cons, hchar, List.cons_append]
          · cases mid with
            | nil =>
                rw [List.append_nil] at hmid
                obtain ⟨before, c', after, rfl, hc', hbefore, rfl⟩ := @ih [] hpost.symm
                refine ⟨c :: before, c', after, rfl, hc', ?_, rfl⟩
                rw [utf8_cons, hchar, hbefore, hmid, List.append_nil]
            | cons y mid =>
                obtain ⟨rfl, -⟩ := List.cons.inj hpost
                exact absurd (hrest b (by rw [hmid]; simp)) (by omega)

/-- Behind a byte below 128 no continuation byte follows. -/
theorem utf8_adjacent {text : List Char} {a b : UInt8} {pre post : Bytes}
    (h : utf8 text = pre ++ a :: b :: post) (ha : a.toNat < 128) : ¬ IsContinuation b := by
  obtain ⟨_, _, _, _, _, _, hafter⟩ := exists_char_of_utf8 h ha
  exact not_isContinuation_of_utf8 hafter

end Utf8
