import ContainerRs.Lib.Bytes
import Mathlib.Data.List.Nodup

/-!
# Base64

Bytes as text, three bytes to four characters, padded. Each character stands for six bits; the
alphabets agree on the values below 62 and may differ in the characters for 62 and 63. Whether
the text of some bytes needs one of these two depends on the bits at each position.

## Main results

* `decode_encode`: reading text back gives the bytes.
* `decode_of_allBelow62`, `allBelow62_of_decode`: text can be read in another alphabet if and
  only if it needs neither of the two characters.
* `allBelow62_iff`: the bytes and their positions decide this.
* `avoidsFrom_append`: bytes in front of others decide it by themselves.
-/

namespace Base64

/-! ### Alphabets -/

/-- The characters for the values below 62: capital and small letters, and digits. -/
def alphanumeric : List Char :=
  (List.range' ('A').toNat 26 ++ List.range' ('a').toNat 26 ++ List.range' ('0').toNat 10).map
    Char.ofNat

/-- The characters for 62 and 63, which are no others of the alphabet. -/
structure Alphabet where
  char62 : Char
  char63 : Char
  distinct : char62 ≠ char63
  fresh62 : char62 ∉ '=' :: alphanumeric
  fresh63 : char63 ∉ '=' :: alphanumeric

/-- The alphabet with plus and slash. -/
def standard : Alphabet := ⟨'+', '/', by decide, by decide +kernel, by decide +kernel⟩

/-- The alphabet with minus and underscore. -/
def urlSafe : Alphabet := ⟨'-', '_', by decide, by decide +kernel, by decide +kernel⟩

/-- The alphabets differ in their last two characters. -/
def Disjoint (α β : Alphabet) : Prop :=
  α.char62 ≠ β.char62 ∧ α.char62 ≠ β.char63 ∧ α.char63 ≠ β.char62 ∧ α.char63 ≠ β.char63

instance (α β : Alphabet) : Decidable (Disjoint α β) := inferInstanceAs (Decidable (_ ∧ _))

variable (α : Alphabet)

/-- The character for six bits. -/
def digit (n : ℕ) : Char :=
  if n < 62 then alphanumeric.getD n 'A' else if n = 62 then α.char62 else α.char63

/-- The six bits that a character stands for. -/
def value (c : Char) : Option ℕ :=
  if c = α.char62 then some 62
  else if c = α.char63 then some 63
  else alphanumeric.idxOf? c

/-! ### Text -/

/-- The six bits of each character. -/
def sextets : Bytes → List ℕ
  | [] => []
  | [a] => [a.toNat / 4, a.toNat % 4 * 16]
  | [a, b] => [a.toNat / 4, a.toNat % 4 * 16 + b.toNat / 16, b.toNat % 16 * 4]
  | a :: b :: c :: bytes =>
      a.toNat / 4 :: (a.toNat % 4 * 16 + b.toNat / 16) :: (b.toNat % 16 * 4 + c.toNat / 64) ::
        c.toNat % 64 :: sextets bytes

/-- The padding behind the last character. -/
def padding (n : ℕ) : List Char := List.replicate ((3 - n % 3) % 3) '='

/-- The text of bytes. -/
def encode (bytes : Bytes) : List Char :=
  (sextets bytes).map (digit α) ++ padding bytes.length

/-- The bytes of four characters, of which the last ones may be padding. -/
def decodeGroup (w x y z : Char) : Option Bytes := do
  let w ← value α w
  let x ← value α x
  if z = '=' then
    if y = '=' then
      if x % 16 = 0 then some [UInt8.ofNat (w * 4 + x / 16)] else none
    else do
      let y ← value α y
      if y % 4 = 0 then
        some [UInt8.ofNat (w * 4 + x / 16), UInt8.ofNat (x % 16 * 16 + y / 4)]
      else none
  else do
    let y ← value α y
    let z ← value α z
    some [UInt8.ofNat (w * 4 + x / 16), UInt8.ofNat (x % 16 * 16 + y / 4),
      UInt8.ofNat (y % 4 * 64 + z)]

/-- The bytes of text; padding is at its end only. -/
def decode : List Char → Option Bytes
  | [] => some []
  | w :: x :: y :: z :: text => do
      let group ← decodeGroup α w x y z
      if z = '=' ∧ text ≠ [] then none
      else do
        let bytes ← decode text
        some (group ++ bytes)
  | _ => none

variable {α}

/-! ### Reading text back -/

/-- The first 62 characters of an alphabet are all different: each is found at its own
index. -/
theorem idxOf?_alphanumeric : ∀ n < 62, alphanumeric.idxOf? (alphanumeric.getD n 'A') = some n := by
  decide +kernel

/-- A value below 62 is encoded by a letter or a digit. -/
theorem getD_mem_alphanumeric : ∀ n < 62, alphanumeric.getD n 'A' ∈ alphanumeric := by
  decide +kernel

/-- A character reads back as its six bits. -/
theorem value_digit {n : ℕ} (h : n < 64) : value α (digit α n) = some n := by
  rw [digit]
  split
  · next hlt =>
      have hmem := List.mem_cons_of_mem '=' (getD_mem_alphanumeric n hlt)
      rw [value, if_neg (ne_of_mem_of_not_mem hmem α.fresh62),
        if_neg (ne_of_mem_of_not_mem hmem α.fresh63), idxOf?_alphanumeric n hlt]
  · split
    · next h62 => rw [value, if_pos rfl, h62]
    · next hge h62 =>
        rw [value, if_neg α.distinct.symm, if_pos rfl, show n = 63 by omega]

/-- Padding is none of the characters. -/
theorem digit_ne_padding (n : ℕ) : digit α n ≠ '=' := by
  rw [digit]
  split
  · next hlt => exact ne_of_mem_of_not_mem (getD_mem_alphanumeric n hlt) (by decide +kernel)
  · split
    · exact fun heq => α.fresh62 (heq ▸ List.mem_cons_self)
    · exact fun heq => α.fresh63 (heq ▸ List.mem_cons_self)

/-- A number that is the value of a byte is that byte. -/
theorem ofNat_eq {n : ℕ} {a : UInt8} (h : n = a.toNat) : UInt8.ofNat n = a := by
  rw [h, UInt8.ofNat_toNat]

/-- **A group of one byte reads back**: two digits, of which the second has four bits to
spare, and two characters of padding. -/
theorem decodeGroup_one (a : UInt8) :
    decodeGroup α (digit α (a.toNat / 4)) (digit α (a.toNat % 4 * 16)) '=' '=' = some [a] := by
  have ha := a.toNat_lt
  rw [decodeGroup, value_digit (by omega), value_digit (by omega)]
  dsimp only [bind, Option.bind]
  rw [if_pos rfl, if_pos rfl, if_pos (by omega), ofNat_eq (a := a) (by omega)]

/-- **A group of two bytes reads back**: three digits, of which the last has two bits to
spare, and one character of padding. -/
theorem decodeGroup_two (a b : UInt8) :
    decodeGroup α (digit α (a.toNat / 4)) (digit α (a.toNat % 4 * 16 + b.toNat / 16))
      (digit α (b.toNat % 16 * 4)) '=' = some [a, b] := by
  have ha := a.toNat_lt
  have hb := b.toNat_lt
  rw [decodeGroup, value_digit (by omega), value_digit (by omega)]
  dsimp only [bind, Option.bind]
  rw [if_pos rfl, if_neg (digit_ne_padding _), value_digit (by omega)]
  dsimp only
  rw [if_pos (by omega), ofNat_eq (a := a) (by omega), ofNat_eq (a := b) (by omega)]

/-- **A group of three bytes reads back** from its four digits. -/
theorem decodeGroup_three (a b c : UInt8) :
    decodeGroup α (digit α (a.toNat / 4)) (digit α (a.toNat % 4 * 16 + b.toNat / 16))
      (digit α (b.toNat % 16 * 4 + c.toNat / 64)) (digit α (c.toNat % 64)) = some [a, b, c] := by
  have ha := a.toNat_lt
  have hb := b.toNat_lt
  have hc := c.toNat_lt
  rw [decodeGroup, value_digit (by omega), value_digit (by omega)]
  dsimp only [bind, Option.bind]
  rw [if_neg (digit_ne_padding _), value_digit (by omega), value_digit (by omega)]
  dsimp only
  rw [ofNat_eq (a := a) (by omega), ofNat_eq (a := b) (by omega), ofNat_eq (a := c) (by omega)]

/-- Whole groups need no padding, so three bytes more leave it as it is. -/
theorem padding_add_three (n : ℕ) : padding (n + 3) = padding n := by
  rw [padding, Nat.add_mod_right, padding]

/-- **Reading text back gives the bytes.**, group by group along the recursion of the
encoder: whole groups need no padding, and the last one has one or two bytes. -/
theorem decode_encode (bytes : Bytes) : decode α (encode α bytes) = some bytes := by
  rw [encode]
  induction bytes using sextets.induct with
  | case1 => rfl
  | case2 a =>
      rw [show (sextets [a]).map (digit α) ++ padding [a].length =
        [digit α (a.toNat / 4), digit α (a.toNat % 4 * 16), '=', '='] from rfl, decode,
        decodeGroup_one]
      rfl
  | case3 a b =>
      rw [show (sextets [a, b]).map (digit α) ++ padding [a, b].length =
        [digit α (a.toNat / 4), digit α (a.toNat % 4 * 16 + b.toNat / 16),
          digit α (b.toNat % 16 * 4), '='] from rfl, decode, decodeGroup_two]
      rfl
  | case4 a b c bytes ih =>
      rw [sextets, List.map_cons, List.map_cons, List.map_cons, List.map_cons, List.cons_append,
        List.cons_append, List.cons_append, List.cons_append, decode, decodeGroup_three,
        show (a :: b :: c :: bytes).length = bytes.length + 3 from rfl, padding_add_three]
      dsimp only [bind, Option.bind]
      rw [if_neg fun h => digit_ne_padding _ h.1, ih]
      rfl

/-! ### Text in another alphabet -/

/-- A character that is read belongs to the alphabet or is padding. Padding may only stand
in the last two places. -/
theorem mem_of_decodeGroup {w x y z : Char} {group : Bytes}
    (h : decodeGroup α w x y z = some group) :
    ∀ c ∈ [w, x, y, z], c = '=' ∨ ∃ n, value α c = some n := by
  rw [decodeGroup] at h
  obtain ⟨n, hw, h⟩ := Option.bind_eq_some_iff.mp h
  obtain ⟨m, hx, h⟩ := Option.bind_eq_some_iff.mp h
  have hyz : (y = '=' ∨ ∃ n, value α y = some n) ∧ (z = '=' ∨ ∃ n, value α z = some n) := by
    split at h
    · next hz =>
        refine ⟨?_, .inl hz⟩
        split at h
        · next hy => exact .inl hy
        · obtain ⟨k, hy, -⟩ := Option.bind_eq_some_iff.mp h
          exact .inr ⟨k, hy⟩
    · obtain ⟨k, hy, h⟩ := Option.bind_eq_some_iff.mp h
      obtain ⟨l, hz, -⟩ := Option.bind_eq_some_iff.mp h
      exact ⟨.inr ⟨k, hy⟩, .inr ⟨l, hz⟩⟩
  intro c hc
  simp only [List.mem_cons, List.not_mem_nil, or_false] at hc
  rcases hc with rfl | rfl | rfl | rfl
  · exact .inr ⟨n, hw⟩
  · exact .inr ⟨m, hx⟩
  · exact hyz.1
  · exact hyz.2

/-- Text that is read is text of the alphabet. The induction is on the groups of the
decoder. -/
theorem mem_of_decode {text : List Char} {bytes : Bytes} (h : decode α text = some bytes) :
    ∀ c ∈ text, c = '=' ∨ ∃ n, value α c = some n := by
  induction text using decode.induct generalizing bytes with
  | case1 => exact fun c hc => absurd hc List.not_mem_nil
  | case2 w x y z text ih =>
      rw [decode] at h
      obtain ⟨group, hgroup, h⟩ := Option.bind_eq_some_iff.mp h
      split at h
      · exact absurd h (by simp)
      · obtain ⟨rest, hrest, -⟩ := Option.bind_eq_some_iff.mp h
        intro c hc
        rw [show w :: x :: y :: z :: text = [w, x, y, z] ++ text from rfl,
          List.mem_append] at hc
        rcases hc with hc | hc
        · exact mem_of_decodeGroup hgroup c hc
        · exact ih hrest c hc
  | case3 text hnil hfour => exact absurd h (by rw [decode] <;> simp_all)

/-- The characters for 62 and 63 have no value in a disjoint alphabet. -/
theorem value_digit_of_disjoint {β : Alphabet} (hdisjoint : Disjoint α β) {n : ℕ}
    (h : ¬ n < 62) : value β (digit α n) = none := by
  obtain ⟨h1, h2, h3, h4⟩ := hdisjoint
  have hfresh : ∀ c, c ∉ '=' :: alphanumeric → alphanumeric.idxOf? c = none := by
    intro c hc
    rw [List.idxOf?_eq_none_iff]
    exact fun hmem => hc (List.mem_cons_of_mem _ hmem)
  rw [digit, if_neg h]
  split
  · rw [value, if_neg h1, if_neg h2, hfresh _ α.fresh62]
  · rw [value, if_neg h3, if_neg h4, hfresh _ α.fresh63]

/-- The text needs none of the two characters in which alphabets differ. -/
def AllBelow62 (bytes : Bytes) : Prop := ∀ n ∈ sextets bytes, n < 62

/-- Where no six bits are 62 or 63, the text is the same in all alphabets, since they
differ in the last two characters alone. -/
theorem encode_eq_of_allBelow62 {β : Alphabet} {bytes : Bytes} (h : AllBelow62 bytes) :
    encode α bytes = encode β bytes := by
  rw [encode, encode]
  congr 1
  refine List.map_congr_left ?_
  intro n hn
  rw [digit, digit, if_pos (h n hn), if_pos (h n hn)]

/-- **Text of one alphabet that can be read in another one** needs none of these. -/
theorem allBelow62_of_decode {β : Alphabet} (hdisjoint : Disjoint α β) {bytes other : Bytes}
    (h : decode β (encode α bytes) = some other) : AllBelow62 bytes := by
  intro n hn
  by_contra hge
  have hmem : digit α n ∈ encode α bytes := List.mem_append_left _ (List.mem_map_of_mem hn)
  rcases mem_of_decode h _ hmem with heq | ⟨m, hm⟩
  · exact digit_ne_padding n heq
  · rw [value_digit_of_disjoint hdisjoint hge] at hm
    exact absurd hm (by simp)

/-- **Text that needs none of these** is read back in every alphabet. -/
theorem decode_of_allBelow62 {β : Alphabet} {bytes : Bytes} (h : AllBelow62 bytes) :
    decode β (encode α bytes) = some bytes := by
  rw [encode_eq_of_allBelow62 h]
  exact decode_encode bytes

/-! ### The bits at a position -/

/-- No six bits that end in this byte or reach into the next one are 62 or 63. -/
def AvoidsAt (position : ℕ) (b : UInt8) (next : Option UInt8) : Prop :=
  if position % 3 = 0 then
    b.toNat < 248 ∧ (b.toNat % 4 = 3 → ∀ n ∈ next, n.toNat < 224)
  else if position % 3 = 1 then b.toNat % 16 = 15 → ∀ n ∈ next, n.toNat < 128
  else b.toNat % 64 < 62

/-- No six bits of the bytes from a position on are 62 or 63. -/
def AvoidsFrom : ℕ → Bytes → Prop
  | _, [] => True
  | position, b :: bytes => AvoidsAt position b bytes.head? ∧ AvoidsFrom (position + 1) bytes

instance decidableForallLt (next : Option UInt8) (n : ℕ) :
    Decidable (∀ b ∈ next, b.toNat < n) :=
  Option.decidableForallMem next

instance (position : ℕ) (b : UInt8) (next : Option UInt8) :
    Decidable (AvoidsAt position b next) := by
  unfold AvoidsAt
  infer_instance

instance decidableAvoidsFrom : (position : ℕ) → (bytes : Bytes) →
    Decidable (AvoidsFrom position bytes)
  | _, [] => isTrue trivial
  | position, _ :: bytes =>
      have := decidableAvoidsFrom (position + 1) bytes
      inferInstanceAs (Decidable (_ ∧ _))

/-- The first byte of a group: its upper six bits, and its lower two with the upper four
of the next byte. -/
theorem avoidsAt_zero {position : ℕ} (h : position % 3 = 0) (b : UInt8) (next : Option UInt8) :
    AvoidsAt position b next ↔
      b.toNat < 248 ∧ (b.toNat % 4 = 3 → ∀ n ∈ next, n.toNat < 224) := by
  rw [AvoidsAt, if_pos h]

/-- The second byte of a group: its lower four bits with the upper two of the next
byte. -/
theorem avoidsAt_one {position : ℕ} (h : position % 3 = 1) (b : UInt8) (next : Option UInt8) :
    AvoidsAt position b next ↔ (b.toNat % 16 = 15 → ∀ n ∈ next, n.toNat < 128) := by
  rw [AvoidsAt, if_neg (by omega), if_pos h]

/-- The third byte of a group: its lower six bits, whatever follows. -/
theorem avoidsAt_two {position : ℕ} (h : position % 3 = 2) (b : UInt8) (next : Option UInt8) :
    AvoidsAt position b next ↔ b.toNat % 64 < 62 := by
  rw [AvoidsAt, if_neg (by omega), if_neg (by omega)]

/-- **The positions of the bytes decide.** The encoder takes three bytes at a time, so the
statement is proved for every position at which a group begins, along its recursion. -/
theorem allBelow62_iff (bytes : Bytes) : AllBelow62 bytes ↔ AvoidsFrom 0 bytes := by
  suffices h : ∀ position, position % 3 = 0 → (AllBelow62 bytes ↔ AvoidsFrom position bytes) from
    h 0 rfl
  induction bytes using sextets.induct with
  | case1 =>
      intro position _
      exact ⟨fun _ => trivial, fun _ n hn => absurd hn List.not_mem_nil⟩
  | case2 a =>
      intro position h0
      have ha := a.toNat_lt
      simp only [AllBelow62, sextets, List.forall_mem_cons, AvoidsFrom, avoidsAt_zero h0,
        List.head?_nil]
      simp
      omega
  | case3 a b =>
      intro position h0
      have ha := a.toNat_lt
      have hb := b.toNat_lt
      simp only [AllBelow62, sextets, List.forall_mem_cons, AvoidsFrom, avoidsAt_zero h0,
        avoidsAt_one (show (position + 1) % 3 = 1 by omega), List.head?_nil, List.head?_cons]
      simp
      omega
  | case4 a b c bytes ih =>
      intro position h0
      have ha := a.toNat_lt
      have hb := b.toNat_lt
      have hc := c.toNat_lt
      have hrest := ih (position + 3) (by omega)
      rw [AllBelow62] at hrest
      simp only [AllBelow62, sextets, List.forall_mem_cons, AvoidsFrom, avoidsAt_zero h0,
        avoidsAt_one (show (position + 1) % 3 = 1 by omega),
        avoidsAt_two (show (position + 1 + 1) % 3 = 2 by omega), List.head?_cons, hrest,
        Option.mem_some_iff, forall_eq']
      constructor
      · rintro ⟨h1, h2, h3, h4, h5⟩
        exact ⟨⟨by omega, by omega⟩, by omega, h4, h5⟩
      · rintro ⟨⟨h1, h2⟩, h3, h4, h5⟩
        exact ⟨by omega, by omega, by omega, h4, h5⟩

/-- Six bits that reach from one byte into the next one are below 62 for the sake of one of
them. -/
def Apart (last first : UInt8) : Prop :=
  (last.toNat % 4 ≠ 3 ∧ last.toNat % 16 ≠ 15) ∨ first.toNat < 128

/-- Behind bytes that are apart the next byte makes no difference: the six bits they share
avoid the two values for the sake of one of them. -/
theorem avoidsAt_of_apart {position : ℕ} {b n : UInt8} (h : Apart b n) :
    AvoidsAt position b (some n) ↔ AvoidsAt position b none := by
  rw [Apart] at h
  simp only [AvoidsAt, Option.mem_some_iff, forall_eq', Option.not_mem_none, IsEmpty.forall_iff,
    implies_true, and_true]
  grind

/-- **Bytes in front of others** avoid the two values by themselves, if those at the seam
are apart: only the last byte of the front looks at the one behind it. -/
theorem avoidsFrom_append {position : ℕ} {xs ys : Bytes}
    (h : ∀ last ∈ xs.getLast?, ∀ first ∈ ys.head?, Apart last first) :
    AvoidsFrom position (xs ++ ys) ↔
      AvoidsFrom position xs ∧ AvoidsFrom (position + xs.length) ys := by
  induction xs generalizing position with
  | nil => exact (iff_of_eq (true_and _)).symm
  | cons b xs ih =>
      rw [List.cons_append, AvoidsFrom, AvoidsFrom, List.length_cons,
        show position + (xs.length + 1) = position + 1 + xs.length by omega, and_assoc]
      cases xs with
      | nil =>
          have hhead : AvoidsAt position b ([] ++ ys).head? ↔ AvoidsAt position b none := by
            cases ys with
            | nil => rfl
            | cons n ys => exact avoidsAt_of_apart (h b rfl n rfl)
          rw [hhead]
          exact and_congr_right fun _ => (iff_of_eq (true_and _)).symm
      | cons c xs =>
          rw [List.getLast?_cons_cons] at h
          rw [ih h, List.cons_append, List.head?_cons, List.head?_cons]

/-- Bytes below 128 that avoid the two values wherever they stand, by induction, each byte
with the one behind it. -/
theorem avoidsFrom_of_forall {bytes : Bytes}
    (h : ∀ b ∈ bytes, b.toNat < 128 ∧ b.toNat % 64 < 62) (position : ℕ) :
    AvoidsFrom position bytes := by
  induction bytes generalizing position with
  | nil => trivial
  | cons b bytes ih =>
      obtain ⟨hb, hbytes⟩ := List.forall_mem_cons.mp h
      refine ⟨?_, ih hbytes (position + 1)⟩
      have hnext : ∀ n ∈ bytes.head?, n.toNat < 128 := fun n hn =>
        (hbytes n (List.mem_of_head? hn)).1
      rw [AvoidsAt]
      split
      · exact ⟨by omega, fun _ n hn => (hnext n hn).trans (by omega)⟩
      · split
        · exact fun _ => hnext
        · exact hb.2

end Base64
