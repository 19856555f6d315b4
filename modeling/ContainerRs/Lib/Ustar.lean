import ContainerRs.Lib.Bytes
import ContainerRs.Lib.Fields
import ContainerRs.Lib.Slices

/-!
# A Reader for ustar Archives

A reference reader for the POSIX ustar format, limited to regular files and directories. An
archive is a sequence of 512-byte blocks: a header for each entry, the entry's data padded
to whole blocks, and two zero blocks at the end. Numbers in a header are octal digits closed
by a NUL, strings end at the first NUL or at the end of their field, and the checksum is the
sum of all bytes of the header with its own field taken as spaces.

## Main results

* `readOctal_octalText`: an octal field reads back.
* `readEntries_cons`: a header with its padded data is read as one entry, and the rest as
  before.
* `readArchive_append`: entry by entry, a whole archive reads back.
-/

namespace Ustar

open Positional Slices

/-- The size of a block, in bytes. -/
def blockSize : ℕ := 512

/-- The path separator. -/
def slash : UInt8 := 47

/-- What an entry is. -/
inductive Kind
  | file
  | directory
  deriving DecidableEq, Repr

/-- The content of a header. -/
structure Header where
  path : Bytes
  kind : Kind
  size : ℕ
  mode : ℕ
  uid : ℕ
  gid : ℕ
  deriving DecidableEq, Repr

/-- An entry: its header and its data. -/
structure Entry where
  header : Header
  data : Bytes
  deriving DecidableEq, Repr

/-- A block of zero bytes. -/
def zeros (n : ℕ) : Bytes := List.replicate n 0

/-- The number of bytes that fill data up to whole blocks. -/
def padding (size : ℕ) : ℕ := (blockSize - size % blockSize) % blockSize

/-! ### Reading a header -/

/-- A string field, up to its first NUL. -/
def readString (field : Bytes) : Bytes := field.takeWhile fun b => decide (b ≠ 0)

/-- An octal digit. -/
def IsOctalDigit (b : UInt8) : Prop := 48 ≤ b.toNat ∧ b.toNat < 56

instance (b : UInt8) : Decidable (IsOctalDigit b) := inferInstanceAs (Decidable (_ ∧ _))

instance (digits : Bytes) : Decidable (∀ b ∈ digits, IsOctalDigit b) :=
  List.decidableBAll IsOctalDigit digits

/-- An octal field: at least one digit, and a NUL behind the digits. -/
def readOctal (field : Bytes) : Option ℕ :=
  let digits := readString field
  if digits ≠ [] ∧ digits.length < field.length ∧ ∀ b ∈ digits, IsOctalDigit b then
    some (valueBE 8 (digits.map fun b => b.toNat - 48))
  else none

/-- The sum of all bytes of a header with its checksum field taken as spaces. -/
def checksum (block : Bytes) : ℕ :=
  ((patch 148 (List.replicate 8 32) block).map UInt8.toNat).sum

/-- The kind that a type flag stands for. -/
def readKind (typeflag : Bytes) : Option Kind :=
  if typeflag = [48] ∨ typeflag = [0] then some .file
  else if typeflag = [53] then some .directory
  else none

/-- The path in front of a name, if there is one. -/
def joinPath (pre name : Bytes) : Bytes := if pre = [] then name else pre ++ slash :: name

/-- Read a header block: magic, version and checksum must be right. -/
def readHeader (block : Bytes) : Option Header :=
  if slice 257 6 block = [117, 115, 116, 97, 114, 0] ∧ slice 263 2 block = [48, 48] ∧
      readOctal (slice 148 8 block) = some (checksum block) then do
    let kind ← readKind (slice 156 1 block)
    let size ← readOctal (slice 124 12 block)
    let mode ← readOctal (slice 100 8 block)
    let uid ← readOctal (slice 108 8 block)
    let gid ← readOctal (slice 116 8 block)
    some { path := joinPath (readString (slice 345 155 block)) (readString (slice 0 100 block))
           kind, size, mode, uid, gid }
  else none

/-! ### Reading an archive -/

/-- Read entries up to two zero blocks, with fuel for that many headers. -/
def readEntries : ℕ → Bytes → Option (List Entry)
  | 0, _ => none
  | fuel + 1, bytes =>
      let block := bytes.take blockSize
      if block.length < blockSize then none
      else if block = zeros blockSize then
        if (bytes.drop blockSize).take blockSize = zeros blockSize then some [] else none
      else
        match readHeader block with
        | none => none
        | some header =>
            let body := bytes.drop blockSize
            let skip := header.size + padding header.size
            if body.length < skip then none
            else (readEntries fuel (body.drop skip)).map fun entries =>
              { header, data := body.take header.size } :: entries

/-- Read an archive; every entry takes at least one block. -/
def readArchive (bytes : Bytes) : Option (List Entry) :=
  readEntries (bytes.length / blockSize + 1) bytes

/-! ### Fields that read back -/

/-- The text of a number as octal digits. -/
def octalText (digits n : ℕ) : Bytes := (digitsBE 8 digits n).map fun d => UInt8.ofNat (48 + d)

/-- A number has as many octal digits as asked for. -/
@[simp] theorem length_octalText (digits n : ℕ) : (octalText digits n).length = digits := by
  rw [octalText, List.length_map, length_digitsBE]

/-- An octal digit's text is no NUL, and its value reads back. -/
theorem octalDigit {d : ℕ} (h : d < 8) : (UInt8.ofNat (48 + d)).toNat = 48 + d := by
  rw [UInt8.toNat_ofNat']
  omega

/-- What a number is written with are octal digits, none of which is the NUL that ends a
field. -/
theorem isOctalDigit_of_mem_octalText {digits n : ℕ} {b : UInt8} (h : b ∈ octalText digits n) :
    IsOctalDigit b := by
  obtain ⟨d, hd, rfl⟩ := List.mem_map.mp h
  have hlt := lt_of_mem_digitsBE (by omega) hd
  rw [IsOctalDigit, octalDigit hlt]
  omega

/-- A string without a NUL, closed by one, reads back. -/
theorem readString_append {xs : Bytes} (h : 0 ∉ xs) (rest : Bytes) :
    readString (xs ++ 0 :: rest) = xs :=
  Fields.takeWhile_ne_append h rest

/-- **Octal fields read back**: a number that fits its digits, closed by a NUL. The NUL
ends the digits, and their values are the digits of the number. -/
theorem readOctal_octalText {digits n : ℕ} (hdigits : 0 < digits) (hn : n < 8 ^ digits)
    (rest : Bytes) : readOctal (octalText digits n ++ 0 :: rest) = some n := by
  have hno : 0 ∉ octalText digits n := fun hmem => by
    have := isOctalDigit_of_mem_octalText hmem
    exact absurd this (by decide)
  have hvalue : ((octalText digits n).map fun b => b.toNat - 48) = digitsBE 8 digits n := by
    rw [octalText, List.map_map]
    refine (List.map_congr_left ?_).trans (List.map_id _)
    intro d hd
    rw [Function.comp_apply, octalDigit (lt_of_mem_digitsBE (by omega) hd), id_eq]
    omega
  rw [readOctal, readString_append hno, if_pos, hvalue, valueBE_digitsBE_of_lt hn]
  refine ⟨?_, ?_, fun b hb => isOctalDigit_of_mem_octalText hb⟩
  · rw [← List.length_pos_iff, length_octalText]
    exact hdigits
  · rw [List.length_append, List.length_cons]
    omega

/-- A sum of bytes is bounded by their number. -/
theorem sum_map_toNat_le (bytes : Bytes) : (bytes.map UInt8.toNat).sum ≤ 255 * bytes.length := by
  induction bytes with
  | nil => exact Nat.zero_le _
  | cons b bytes ih =>
      have hb := b.toNat_lt
      rw [List.map_cons, List.sum_cons, List.length_cons]
      omega

/-- **The checksum fits**: that of a block is below six octal digits. -/
theorem checksum_lt {block : Bytes} (h : block.length = blockSize) :
    checksum block < 8 ^ 6 := by
  have hlength : (patch 148 (List.replicate 8 32) block).length = blockSize := by
    rw [length_patch, h]
    rw [h, List.length_replicate, blockSize]
    omega
  have hsum := sum_map_toNat_le (patch 148 (List.replicate 8 32) block)
  rw [hlength, blockSize] at hsum
  rw [checksum]
  omega

/-! ### Archives that read back -/

/-- A readable header is no zero block. -/
theorem ne_zeros_of_readHeader {block : Bytes} {header : Header}
    (h : readHeader block = some header) : block ≠ zeros blockSize := by
  rintro rfl
  rw [readHeader, if_neg] at h
  · exact absurd h (by simp)
  · rintro ⟨hmagic, -⟩
    rw [zeros, slice_replicate (by decide)] at hmagic
    exact absurd hmagic (by decide)

/-- Data is padded to whole blocks. -/
theorem padding_spec (size : ℕ) : (size + padding size) % blockSize = 0 := by
  simp only [padding, blockSize]
  omega

/-- **The entry lemma**: a header block with its data and padding is one entry. -/
theorem readEntries_cons {fuel : ℕ} {block data : Bytes} {header : Header}
    (hblock : block.length = blockSize) (hheader : readHeader block = some header)
    (hsize : header.size = data.length) (rest : Bytes) :
    readEntries (fuel + 1) (block ++ (data ++ zeros (padding data.length) ++ rest)) =
      (readEntries fuel rest).map fun entries => { header, data } :: entries := by
  have hskip : (data ++ zeros (padding data.length)).length = header.size +
      padding header.size := by
    rw [List.length_append, zeros, List.length_replicate, hsize]
  have hne := ne_zeros_of_readHeader hheader
  rw [readEntries]
  simp only [List.take_left' hblock, List.drop_left' hblock, hblock, lt_irrefl, if_false,
    if_neg hne, hheader]
  rw [if_neg (by rw [List.length_append, hskip]; omega), List.drop_left' hskip,
    List.append_assoc, List.take_left' hsize.symm]

/-- Two zero blocks end an archive. -/
theorem readEntries_zeros (fuel : ℕ) :
    readEntries (fuel + 1) (zeros (2 * blockSize)) = some [] := by
  have hsplit : zeros (2 * blockSize) = zeros blockSize ++ zeros blockSize := by
    rw [zeros, zeros, Nat.two_mul, List.replicate_add]
  have hlength : (zeros blockSize).length = blockSize := List.length_replicate
  rw [readEntries, hsplit]
  simp only [List.take_left' hlength, List.drop_left' hlength, hlength, lt_irrefl, if_false,
    if_true, List.take_of_length_le hlength.le]

/-- The bytes of an entry: a header block that reads as its header, and its padded data. -/
def IsEncoding (bytes : Bytes) (entry : Entry) : Prop :=
  ∃ block, block.length = blockSize ∧ readHeader block = some entry.header ∧
    entry.header.size = entry.data.length ∧
    bytes = block ++ (entry.data ++ zeros (padding entry.data.length))

/-- An encoded entry fills whole blocks, at least one. -/
theorem IsEncoding.length {bytes : Bytes} {entry : Entry} (h : IsEncoding bytes entry) :
    blockSize ≤ bytes.length ∧ bytes.length % blockSize = 0 := by
  obtain ⟨block, hblock, -, -, rfl⟩ := h
  have hpad := padding_spec entry.data.length
  simp only [List.length_append, hblock, zeros, List.length_replicate]
  simp only [blockSize] at hpad ⊢
  omega

/-- **Archives read back**: the concatenation of encoded entries and two zero blocks yields
exactly the entries. -/
theorem readArchive_append {parts : List Bytes} {entries : List Entry}
    (h : List.Forall₂ IsEncoding parts entries) :
    readArchive (parts.flatten ++ zeros (2 * blockSize)) = some entries := by
  have hread : ∀ {fuel : ℕ}, parts.length < fuel →
      readEntries fuel (parts.flatten ++ zeros (2 * blockSize)) = some entries := by
    induction h with
    | nil =>
        intro fuel hfuel
        obtain ⟨fuel, rfl⟩ : ∃ m, fuel = m + 1 := ⟨fuel - 1, by simp at hfuel; omega⟩
        exact readEntries_zeros fuel
    | @cons part entry parts entries hpart _ ih =>
        intro fuel hfuel
        rw [List.length_cons] at hfuel
        obtain ⟨fuel, rfl⟩ : ∃ m, fuel = m + 1 := ⟨fuel - 1, by omega⟩
        obtain ⟨block, hblock, hheader, hsize, rfl⟩ := hpart
        rw [List.flatten_cons, List.append_assoc, List.append_assoc,
          readEntries_cons hblock hheader hsize, ih (by omega), Option.map_some]
  have hlength : blockSize * parts.length ≤ parts.flatten.length := by
    clear hread
    induction h with
    | nil => simp
    | cons hpart _ ih =>
        have := hpart.length.1
        rw [List.flatten_cons, List.length_append, List.length_cons, Nat.mul_succ]
        omega
  refine hread ?_
  rw [List.length_append, zeros, List.length_replicate, Nat.lt_succ_iff,
    Nat.le_div_iff_mul_le (by decide), Nat.mul_comm]
  omega

end Ustar
