import Mathlib.Data.List.Basic

/-!
# Texts of IP Addresses

Which texts are IPv6 addresses: up to eight groups of one to four hexadecimal digits with
colons between them, the last two perhaps written as an IPv4 address, and "::" once in place
of at least one group. The reader takes groups from the front of a text as long as it can and
backs up to the end of the last one; an address must leave nothing unread.

## Main results

* `not_isIpv6_of_notMem`: a text without a colon is no IPv6 address.
-/

namespace IpAddr

/-- A reader takes something from the front of a text, or fails. -/
abbrev Reader (α : Type) := List Char → Option (α × List Char)

/-- One character. -/
def readGivenChar (target : Char) : Reader Unit
  | [] => none
  | c :: rest => if c = target then some ((), rest) else none

/-- The value of a digit. -/
def toDigit (radix : ℕ) (c : Char) : Option ℕ :=
  let value :=
    if '0' ≤ c ∧ c ≤ '9' then some (c.toNat - 48)
    else if 'a' ≤ c ∧ c ≤ 'z' then some (c.toNat - 87)
    else if 'A' ≤ c ∧ c ≤ 'Z' then some (c.toNat - 55)
    else none
  value.filter (· < radix)

/-- A number of at most `maxDigits` digits, and below the bound; a decimal one has no
leading zeros. -/
def readNumber (radix maxDigits bound : ℕ) (allowZeroPrefix : Bool) : Reader ℕ := fun s =>
  let digits := s.takeWhile fun c => (toDigit radix c).isSome
  let value := digits.foldl (fun n c => n * radix + (toDigit radix c).getD 0) 0
  if digits = [] ∨ maxDigits < digits.length then none
  else if !allowZeroPrefix ∧ digits.head? = some '0' ∧ 1 < digits.length then none
  else if value < bound then some (value, s.drop digits.length)
  else none

/-- What follows a separator; the first item has none. -/
def readSeparator {α : Type} (separator : Char) (index : ℕ) (inner : Reader α) : Reader α :=
  fun s =>
    if 0 < index then (readGivenChar separator s).bind fun result => inner result.2
    else inner s

/-- The groups of an IPv4 address from the one at `index` on. -/
def readIpv4Groups : ℕ → ℕ → Reader Unit
  | 0, _, s => some ((), s)
  | groups + 1, index, s =>
      (readSeparator '.' index (readNumber 10 3 256 false) s).bind fun result =>
        readIpv4Groups groups (index + 1) result.2

/-- An IPv4 address. -/
def readIpv4Addr : Reader Unit := readIpv4Groups 4 0

/-- Groups of an IPv6 address from the one at `index` on, `left` at most: how many have been read
then, and whether the last two are an IPv4 address, which needs room for two. -/
def readGroups : ℕ → ℕ → List Char → (ℕ × Bool) × List Char
  | 0, index, s => ((index, false), s)
  | left + 1, index, s =>
      match if 0 < left then readSeparator ':' index readIpv4Addr s else none with
      | some result => ((index + 2, true), result.2)
      | none =>
          match readSeparator ':' index (readNumber 16 4 65536 true) s with
          | some result => readGroups left (index + 1) result.2
          | none => ((index, false), s)

/-- The part of an IPv6 address behind "::", when `head` groups stand in front of it. -/
def readIpv6Tail (head : ℕ) (s : List Char) : Option (List Char) := do
  let (_, s) ← readGivenChar ':' s
  let (_, s) ← readGivenChar ':' s
  some (readGroups (8 - (head + 1)) 0 s).2

/-- What an IPv6 address in front of a text leaves of it. -/
def readIpv6Addr (s : List Char) : Option (List Char) :=
  let head := readGroups 8 0 s
  if head.1.1 = 8 then some head.2
  else if head.1.2 then none
  else readIpv6Tail head.1.1 head.2

/-- The text is an IPv6 address. -/
def isIpv6 (s : List Char) : Bool := readIpv6Addr s = some []

/-! ### Texts without a colon -/

/-- A character that is not in the text is not read from it. -/
theorem readGivenChar_eq_none {target : Char} {s : List Char} (h : target ∉ s) :
    readGivenChar target s = none := by
  cases s with
  | nil => rfl
  | cons c rest =>
      rw [readGivenChar, if_neg]
      rintro rfl
      exact h List.mem_cons_self

/-- What a number leaves is a part of the text. It drops the digits in front. -/
theorem mem_of_readNumber {radix maxDigits bound n : ℕ} {allowZeroPrefix : Bool}
    {s rest : List Char} (h : readNumber radix maxDigits bound allowZeroPrefix s = some (n, rest))
    {c : Char} (hc : c ∈ rest) : c ∈ s := by
  rw [readNumber] at h
  split at h
  · cases h
  split at h
  · cases h
  split at h
  · cases h
    exact List.mem_of_mem_drop hc
  · cases h

/-- Behind a first group there is no second one. -/
theorem readGroups_eq_of_notMem {s : List Char} (h : ':' ∉ s) (left index : ℕ) :
    readGroups left (index + 1) s = ((index + 1, false), s) := by
  have hsep : ∀ {α : Type} (inner : Reader α), readSeparator ':' (index + 1) inner s = none := by
    intro α inner
    rw [readSeparator, if_pos (Nat.succ_pos index), readGivenChar_eq_none h, Option.bind_none]
  cases left with
  | zero => rfl
  | succ left => simp only [readGroups, hsep, ite_self]

/-- **A text without a colon is no IPv6 address**, however many of its groups are read. At
most one group or one IPv4 address is read, since every other one needs a colon in front
of it, and there is no double colon either. -/
theorem not_isIpv6_of_notMem {s : List Char} (h : ':' ∉ s) : isIpv6 s = false := by
  have hhead : (readGroups 8 0 s).1.1 ≠ 8 ∧
      ((readGroups 8 0 s).1.2 = true ∨ ':' ∉ (readGroups 8 0 s).2) := by
    rw [readGroups]
    split
    · exact ⟨by simp, .inl rfl⟩
    · split
      · next result hgroup =>
          have hrest : ':' ∉ result.2 := fun hmem => h (mem_of_readNumber hgroup hmem)
          rw [readGroups_eq_of_notMem hrest]
          exact ⟨by simp, .inr hrest⟩
      · exact ⟨by simp, .inr h⟩
  have hnone : readIpv6Addr s = none := by
    rw [readIpv6Addr, if_neg hhead.1]
    split
    · rfl
    · next hipv4 =>
        rw [readIpv6Tail, readGivenChar_eq_none (hhead.2.resolve_left hipv4)]
        rfl
  rw [isIpv6, hnone]
  rfl

example : isIpv6 "2001:db8::7".toList = true := by decide +kernel

example : isIpv6 "::ffff:192.0.2.1".toList = true := by decide +kernel

end IpAddr
