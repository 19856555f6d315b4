import ContainerRs.DockerTar
import ContainerRs.Lib.Outcomes
import ContainerRs.Lib.Utf8

/-!
# Parsing ustar Archives

A file is copied from a container as a tar archive whose first entry
`parse_first_regular_file_from_ustar` (docker_tar.rs) reads. The archive comes from outside:
every index, every range of a slice and the sum of the header's bytes are checked, and a call
that would leave its block or overflow has no result.

Paths given to the builder are UTF-8, so that no archive of its own begins with the magic of
gzip.

## Main results

* `parseDigits_octalText`: an octal field reads back.
* `fileSize_spec`: what a header that is accepted looks like.
* `parseFirstRegularFile_total`, `parseFirstRegularFile_eq_ok`: the parser always returns, and
  `Ok` only with the bytes behind an intact header of a regular file.
* `parseFirstRegularFile_finish`: an archive of the builder yields its first entry.
-/

namespace ContainerRs

open Checked Positional Slices Ustar Utf8

/-! ### The parser -/

/-- Why copying from a container fails. -/
inductive CopyFromContainerError
  | io (kind : IoErrorKind) (msg : String)
  | isDirectory
  | emptyArchive
  | unsupportedEntry (entry : String)
  deriving DecidableEq, Repr

/-- An archive that is not well formed. -/
def invalidData (msg : String) : CopyFromContainerError := .io .invalidData msg

/-- Read octal digits up to a NUL or a space, on top of the value of those in front. -/
def parseDigits (max : ℕ) (invalid overflow : String) :
    ℕ → Bytes → Except CopyFromContainerError ℕ
  | value, [] => .ok value
  | value, b :: field =>
      if b = 0 ∨ b = 0x20 then .ok value
      else if ¬ IsOctalDigit b then .error (invalidData invalid)
      else
        match (checkedMul max value 8).bind fun v => checkedAdd max v (b.toNat - 48) with
        | none => .error (invalidData overflow)
        | some value => parseDigits max invalid overflow value field

/-- Read an octal field. -/
def parseOctal (field : Bytes) : Except CopyFromContainerError ℕ :=
  parseDigits u64Max "invalid octal field" "octal field overflow" 0 field

/-- Read a checksum field. -/
def parseChksum (field : Bytes) : Except CopyFromContainerError ℕ :=
  parseDigits u32Max "invalid checksum field" "checksum field overflow" 0 field

/-- Whether the archive begins with the magic of gzip. -/
def isGzip (bytes : Bytes) : Option Bool :=
  if bytes.length ≥ 2 then
    bytes[0]?.bind fun first =>
      if first = 0x1f then bytes[1]?.map fun second => decide (second = 0x8b) else some false
  else some false

/-- Only regular files are accepted. -/
def checkTypeflag (typeflag : UInt8) : Except CopyFromContainerError Unit :=
  if typeflag = typeflagDirectory then .error .isDirectory
  else if typeflag = 0 ∨ typeflag = typeflagRegular then .ok ()
  else if typeflag = 49 then .error (.unsupportedEntry "hardlink")
  else if typeflag = 50 then .error (.unsupportedEntry "symlink")
  else if typeflag = 51 then .error (.unsupportedEntry "char device")
  else if typeflag = 52 then .error (.unsupportedEntry "block device")
  else if typeflag = 54 then .error (.unsupportedEntry "fifo")
  else .error (.unsupportedEntry "unknown typeflag")

/-- The sum of a header's bytes, taken on a copy with spaces in place of the checksum. -/
def computeChksum (header : Bytes) : Option ℕ :=
  (copyRange (zeros blockSize) 0 blockSize header).bind fun sumHeader =>
    (copyRange sumHeader 148 156 (List.replicate 8 32)).bind fun sumHeader =>
      checkedSum u32Max (sumHeader.map UInt8.toNat)

/-- Read a size field as a `usize`. -/
def parseSize (field : Bytes) : Except CopyFromContainerError ℕ :=
  match parseOctal field with
  | .error e => .error e
  | .ok size =>
      if size > usizeMax then .error (invalidData "tar size does not fit in usize")
      else .ok size

/-- The size of the data behind a header, which must be that of a regular file and intact. -/
def fileSize (header : Bytes) : Option (Except CopyFromContainerError ℕ) :=
  header[156]?.bind fun typeflag =>
    match checkTypeflag typeflag with
    | .error e => some (.error e)
    | .ok () =>
        (sliceRange header 148 156).bind fun field =>
          match parseChksum field with
          | .error e => some (.error e)
          | .ok stored =>
              (computeChksum header).bind fun computed =>
                if stored ≠ computed then
                  some (.error (invalidData "tar header checksum mismatch"))
                else
                  (sliceRange header 124 136).map parseSize

/-- The data of an archive's first entry, of which the size is given. -/
def fileData (bytes : Bytes) (size : ℕ) : Option (Except CopyFromContainerError Bytes) :=
  match checkedAdd usizeMax blockSize size with
  | none => some (.error (invalidData "tar size overflow"))
  | some dataEnd =>
      if bytes.length < dataEnd then some (.error (invalidData "truncated tar data"))
      else (sliceRange bytes blockSize dataEnd).map .ok

/-- Read the first entry of an archive, which must be a regular file. -/
def parseFirstRegularFileFromUstar (bytes : Bytes) :
    Option (Except CopyFromContainerError Bytes) :=
  (isGzip bytes).bind fun gzip =>
    if gzip then some (.error (.unsupportedEntry "gzip"))
    else if bytes.length < blockSize then
      some (.error (invalidData "truncated tar header"))
    else
      (sliceTo bytes blockSize).bind fun header =>
        if header.all fun b => decide (b = 0) then some (.error .emptyArchive)
        else
          (fileSize header).bind fun size =>
            match size with
            | .error e => some (.error e)
            | .ok size => fileData bytes size

/-! ### Reading any archive -/

/-- The magic of gzip, and then anything. -/
theorem isGzip_eq (bytes : Bytes) :
    isGzip bytes = some (decide (bytes.take 2 = [0x1f, 0x8b])) := by
  rw [isGzip]
  match bytes with
  | [] => rfl
  | [b] => simp
  | first :: second :: bytes =>
      rw [if_pos (by simp)]
      by_cases hfirst : first = 0x1f <;> simp [hfirst]

/-- A number read never exceeds the bound. By induction on the field: each digit is added
only if that does not exceed the bound. -/
theorem parseDigits_le {max : ℕ} {invalid overflow : String} {field : Bytes} {acc value : ℕ}
    (hacc : acc ≤ max) (h : parseDigits max invalid overflow acc field = .ok value) :
    value ≤ max := by
  induction field generalizing acc with
  | nil =>
      obtain rfl := Except.ok.inj h
      exact hacc
  | cons b field ih =>
      rw [parseDigits] at h
      split at h
      · obtain rfl := Except.ok.inj h
        exact hacc
      split at h
      · exact absurd h (by simp)
      split at h
      · exact absurd h (by simp)
      next acc' hadd =>
      obtain ⟨v, -, hadd⟩ := Option.bind_eq_some_iff.mp hadd
      exact ih (checkedAdd_eq_some.mp hadd).2 h

/-- Every number that an octal field can hold is a `usize`. -/
theorem parseSize_eq_ok {field : Bytes} {size : ℕ} :
    parseSize field = .ok size ↔ parseOctal field = .ok size := by
  rw [parseSize]
  cases hoctal : parseOctal field with
  | error e => exact Iff.rfl
  | ok value =>
      have hle : value ≤ usizeMax := parseDigits_le (Nat.zero_le _) hoctal
      dsimp only
      rw [if_neg (Nat.not_lt.mpr hle)]

/-- The files among the entries. -/
theorem checkTypeflag_eq_ok {typeflag : UInt8} {u : Unit} :
    checkTypeflag typeflag = .ok u ↔ typeflag = 0 ∨ typeflag = typeflagRegular := by
  rw [checkTypeflag]
  constructor
  · intro h
    split at h
    · exact absurd h (by simp)
    split at h
    · assumption
    · repeat' split at h
      all_goals exact absurd h (by simp)
  · intro h
    rw [if_neg (by rcases h with rfl | rfl <;> decide), if_pos h]

/-- Within a header block nothing of its checksum overflows. -/
theorem computeChksum_eq {header : Bytes} (h : header.length = blockSize) :
    computeChksum header = some (checksum header) := by
  have hcopy : patch 0 header (zeros blockSize) = header := by
    simp [patch, h, zeros]
  have hlt := checksum_lt h
  rw [checksum] at hlt
  have hwhole : copyRange (zeros blockSize) 0 blockSize header = some header := by
    rw [copyRange_of_le (Nat.zero_le _) (Nat.le_of_eq (length_zeros _).symm)
      (by rw [h, Nat.sub_zero]), hcopy]
  rw [computeChksum, hwhole, Option.bind_some, copyRange_of_le (by omega) (by rw [h]; decide) rfl,
    Option.bind_some, checkedSum_of_le (Nat.le_of_lt (hlt.trans (by decide))), checksum]

/-- Reading a header block always comes to a result. No index is out of bounds in a block,
so the checks are all that is left. -/
theorem fileSize_eq {header : Bytes} (h : header.length = blockSize) :
    fileSize header = some (do
      checkTypeflag (header.get ⟨156, by rw [h]; decide⟩)
      let stored ← parseChksum (slice 148 8 header)
      if stored ≠ checksum header then .error (invalidData "tar header checksum mismatch")
      else parseSize (slice 124 12 header)) := by
  have hlt : 156 < header.length := by
    rw [h]
    decide
  rw [fileSize, List.getElem?_eq_getElem hlt, Option.bind_some,
    sliceRange_of_le (by omega) (by omega), sliceRange_of_le (by omega) (by omega),
    computeChksum_eq h]
  cases checkTypeflag header[156] with
  | error e => rfl
  | ok =>
      simp only [Option.bind_some]
      cases parseChksum (slice 148 (156 - 148) header) with
      | error e => rfl
      | ok stored => exact (apply_ite some _ _ _).symm

/-- A header that is accepted is a regular file's, its checksum is right, and the size is
that of its field. -/
theorem fileSize_eq_ok {header : Bytes} (h : header.length = blockSize) {size : ℕ} :
    fileSize header = some (.ok size) ↔
      (header[156]? = some 0 ∨ header[156]? = some typeflagRegular) ∧
        parseChksum (slice 148 8 header) = .ok (checksum header) ∧
        parseOctal (slice 124 12 header) = .ok size := by
  have hlt : 156 < header.length := by
    rw [h]
    decide
  rw [fileSize_eq h, Option.some.injEq, Outcomes.bind_eq_ok, List.getElem?_eq_getElem hlt,
    Option.some.injEq, Option.some.injEq]
  constructor
  · rintro ⟨u, hflag, hrest⟩
    obtain ⟨stored, hstored, hrest⟩ := Outcomes.bind_eq_ok.mp hrest
    split at hrest
    · exact absurd hrest (by simp)
    · next heq =>
        obtain rfl := not_not.mp heq
        exact ⟨checkTypeflag_eq_ok.mp hflag, hstored, parseSize_eq_ok.mp hrest⟩
  · rintro ⟨hflag, hchksum, hoctal⟩
    refine ⟨(), checkTypeflag_eq_ok.mpr hflag, Outcomes.bind_eq_ok.mpr ⟨_, hchksum, ?_⟩⟩
    rw [if_neg (not_not.mpr rfl)]
    exact parseSize_eq_ok.mpr hoctal

/-- The data of an entry is what follows the header, if it is all there. The sum of the
lengths is checked first, and then whether there are as many bytes. -/
theorem fileData_eq (bytes : Bytes) (size : ℕ) : ∃ r, fileData bytes size = some r ∧
    ∀ data, r = .ok data ↔ blockSize + size ≤ usizeMax ∧ blockSize + size ≤ bytes.length ∧
      data = slice blockSize size bytes := by
  rw [fileData]
  cases hadd : checkedAdd usizeMax blockSize size with
  | none =>
      refine ⟨_, rfl, fun data => ⟨fun h => absurd h (by simp), ?_⟩⟩
      rintro ⟨hle, -⟩
      rw [checkedAdd, if_pos hle] at hadd
      exact absurd hadd (by simp)
  | some dataEnd =>
      obtain ⟨rfl, hle⟩ := checkedAdd_eq_some.mp hadd
      dsimp only
      split
      · next hlt =>
          refine ⟨_, rfl, fun data => ⟨fun h => absurd h (by simp), ?_⟩⟩
          rintro ⟨-, hlen, -⟩
          omega
      · next hlen =>
          rw [sliceRange_of_le (Nat.le_add_right _ _) (Nat.not_lt.mp hlen),
            Nat.add_sub_cancel_left]
          refine ⟨_, rfl, ?_⟩
          intro data
          rw [Except.ok.injEq, eq_comm]
          exact ⟨fun h => ⟨hle, Nat.not_lt.mp hlen, h⟩, fun h => h.2.2⟩

/-- The magic of gzip, a missing block and a zero block come before the header. The checks
are those of the code, in the same order. -/
theorem parseFirstRegularFile_eq (bytes : Bytes) :
    parseFirstRegularFileFromUstar bytes =
      if bytes.take 2 = [0x1f, 0x8b] then some (.error (.unsupportedEntry "gzip"))
      else if bytes.length < blockSize then
        some (.error (invalidData "truncated tar header"))
      else if bytes.take blockSize = zeros blockSize then some (.error .emptyArchive)
      else
        (fileSize (bytes.take blockSize)).bind fun
          | .error e => some (.error e)
          | .ok size => fileData bytes size := by
  rw [parseFirstRegularFileFromUstar, isGzip_eq, Option.bind_some]
  simp only [decide_eq_true_eq]
  refine if_congr Iff.rfl rfl ?_
  split
  · rfl
  next hlen =>
  have hzeros : ((bytes.take blockSize).all fun b => decide (b = 0)) = true ↔
      bytes.take blockSize = zeros blockSize := by
    rw [zeros, List.eq_replicate_iff, List.length_take, Nat.min_eq_left (Nat.not_lt.mp hlen)]
    simp
  rw [sliceTo, if_pos (Nat.not_lt.mp hlen), Option.bind_some]
  exact if_congr hzeros rfl rfl

/-- The first block of an archive that holds one. -/
theorem length_take_blockSize {bytes : Bytes} (h : blockSize ≤ bytes.length) :
    (bytes.take blockSize).length = blockSize := by
  rw [List.length_take, Nat.min_eq_left h]

/-- **The parser always returns**: no index, slice or sum is out of range. -/
theorem parseFirstRegularFile_total (bytes : Bytes) :
    ∃ r, parseFirstRegularFileFromUstar bytes = some r := by
  rw [parseFirstRegularFile_eq]
  split
  · exact ⟨_, rfl⟩
  split
  · exact ⟨_, rfl⟩
  next hlen =>
  split
  · exact ⟨_, rfl⟩
  rw [fileSize_eq (length_take_blockSize (Nat.not_lt.mp hlen)), Option.bind_some]
  split
  · exact ⟨_, rfl⟩
  · next size _ =>
      obtain ⟨r, hr, -⟩ := fileData_eq bytes size
      exact ⟨r, hr⟩

/-- **What is accepted**: no gzip magic, a header that is not all zero and is accepted, and
the data behind it, all of it. -/
theorem parseFirstRegularFile_eq_ok {bytes data : Bytes} :
    parseFirstRegularFileFromUstar bytes = some (.ok data) ↔
      bytes.take 2 ≠ [0x1f, 0x8b] ∧ blockSize ≤ bytes.length ∧
        bytes.take blockSize ≠ zeros blockSize ∧
        ∃ size, fileSize (bytes.take blockSize) = some (.ok size) ∧
          blockSize + size ≤ usizeMax ∧ blockSize + size ≤ bytes.length ∧
          data = slice blockSize size bytes := by
  rw [parseFirstRegularFile_eq]
  split
  · next hgzip => exact ⟨fun h => absurd h (by simp), fun ⟨hne, _⟩ => absurd hgzip hne⟩
  next hgzip =>
  split
  · exact ⟨fun h => absurd h (by simp), fun ⟨_, hle, _⟩ => by omega⟩
  next hlen =>
  split
  · next hzero => exact ⟨fun h => absurd h (by simp), fun ⟨_, _, hne, _⟩ => absurd hzero hne⟩
  next hzero =>
  rw [Option.bind_eq_some_iff]
  constructor
  · rintro ⟨r, hsize, hdata⟩
    cases r with
    | error e => exact absurd hdata (by simp)
    | ok size =>
        obtain ⟨r, hr, hok⟩ := fileData_eq bytes size
        obtain rfl := Option.some.inj (hr.symm.trans hdata)
        exact ⟨hgzip, Nat.not_lt.mp hlen, hzero, size, hsize, (hok data).mp rfl⟩
  · rintro ⟨-, -, -, size, hsize, hdata⟩
    obtain ⟨r, hr, hok⟩ := fileData_eq bytes size
    refine ⟨.ok size, hsize, ?_⟩
    rw [← (hok data).mpr hdata]
    exact hr

/-! ### Reading an archive of the builder -/

/-- Digits that stay within the bound are read on top of those in front. By induction on
the digits: none of them is the end of a field, and the sums on the way are not above the
last one. -/
theorem parseDigits_digits {max : ℕ} (invalid overflow : String) {ds : List ℕ}
    (hds : ∀ d ∈ ds, d < 8) {acc : ℕ} (hmax : ds.foldl (fun acc d => acc * 8 + d) acc ≤ max)
    (rest : Bytes) :
    parseDigits max invalid overflow acc ((ds.map fun d => UInt8.ofNat (48 + d)) ++ rest) =
      parseDigits max invalid overflow (ds.foldl (fun acc d => acc * 8 + d) acc) rest := by
  induction ds generalizing acc with
  | nil => rfl
  | cons d ds ih =>
      have hd : d < 8 := hds d List.mem_cons_self
      have hdigit := octalDigit hd
      have hle : acc * 8 + d ≤ max :=
        Nat.le_trans (le_foldl_digits (by omega) ds (acc * 8 + d)) hmax
      have hadd : (checkedMul max acc 8).bind
          (fun v => checkedAdd max v ((UInt8.ofNat (48 + d)).toNat - 48)) =
          some (acc * 8 + d) := by
        rw [hdigit, Nat.add_sub_cancel_left, checkedMul, if_pos (by omega), Option.bind_some,
          checkedAdd, if_pos hle]
      have hstop : ¬ (UInt8.ofNat (48 + d) = 0 ∨ UInt8.ofNat (48 + d) = 0x20) := by
        rintro (h | h) <;> have := congrArg UInt8.toNat h <;> rw [hdigit] at this <;> simp at this
        omega
      rw [List.map_cons, List.cons_append, parseDigits, if_neg hstop,
        if_neg (not_not.mpr (by rw [IsOctalDigit, hdigit]; omega)), hadd]
      exact ih (fun d hd => hds d (List.mem_cons_of_mem _ hd)) hmax

/-- **Octal fields read back**: a number within the bound that fits its digits, closed by a
NUL. -/
theorem parseDigits_octalText {max digits n : ℕ} (invalid overflow : String)
    (hn : n < 8 ^ digits) (hmax : n ≤ max) (rest : Bytes) :
    parseDigits max invalid overflow 0 (octalText digits n ++ 0 :: rest) = .ok n := by
  have hvalue : (digitsBE 8 digits n).foldl (fun acc d => acc * 8 + d) 0 = n :=
    valueBE_digitsBE_of_lt hn
  rw [octalText, parseDigits_digits invalid overflow
    (fun d hd => lt_of_mem_digitsBE (by omega) hd) (by rw [hvalue]; exact hmax), hvalue,
    parseDigits, if_pos (.inl rfl)]

section

variable {name pre : Bytes} (typeflag : UInt8) (size : ℕ) (mode uid gid : UInt32)

/-- The type flag of a header block. -/
theorem getElem_headerBlock (hname : name.length ≤ nameMax) (hpre : pre.length ≤ prefixLen) :
    (headerBlock name pre typeflag size mode uid gid)[156]? = some typeflag := by
  rw [← slice_one]
  exact slice_fixedField _ _ _ _ _ hname hpre (by simp [mem_headerFields]) rfl
    (.inr (by omega))

/-- The checksum of a header block is accepted. -/
theorem parseChksum_headerBlock (hname : name.length ≤ nameMax)
    (hpre : pre.length ≤ prefixLen) :
    parseChksum (slice 148 8 (headerBlock name pre typeflag size mode uid gid)) =
      .ok (checksum (headerBlock name pre typeflag size mode uid gid)) := by
  have hlt := checksum_lt (length_headerBlock typeflag size mode uid gid hname hpre)
  rw [slice_chksum _ _ _ _ _ hname hpre, writeChksum]
  exact parseDigits_octalText _ _ hlt (Nat.le_of_lt (hlt.trans (by decide))) [32]

/-- The size in a header block reads back. -/
theorem parseOctal_headerBlock (hname : name.length ≤ nameMax)
    (hpre : pre.length ≤ prefixLen) (hsize : size ≤ octal11DigitMax) :
    parseOctal (slice 124 12 (headerBlock name pre typeflag size mode uid gid)) = .ok size := by
  have hlt : size < 8 ^ 11 := Nat.lt_of_le_of_lt hsize (by decide)
  rw [slice_fixedField _ _ _ _ _ hname hpre (by simp [mem_headerFields])
    (length_writeOctal size 11) (.inl (by omega)), writeOctal]
  exact parseDigits_octalText _ _ hlt (Nat.le_of_lt (hlt.trans (by decide))) []

/-- **A header block reads back**: its size if it is a regular file's. -/
theorem fileSize_headerBlock_regular (hname : name.length ≤ nameMax)
    (hpre : pre.length ≤ prefixLen) (hsize : size ≤ octal11DigitMax) :
    fileSize (headerBlock name pre typeflagRegular size mode uid gid) = some (.ok size) :=
  (fileSize_eq_ok (length_headerBlock _ _ _ _ _ hname hpre)).mpr
    ⟨.inr (getElem_headerBlock _ _ _ _ _ hname hpre),
      parseChksum_headerBlock _ _ _ _ _ hname hpre,
      parseOctal_headerBlock _ _ _ _ _ hname hpre hsize⟩

/-- A directory is recognized by the type flag. -/
theorem fileSize_headerBlock_directory (hname : name.length ≤ nameMax)
    (hpre : pre.length ≤ prefixLen) :
    fileSize (headerBlock name pre typeflagDirectory size mode uid gid) =
      some (.error .isDirectory) := by
  rw [fileSize, getElem_headerBlock _ _ _ _ _ hname hpre, Option.bind_some]
  rfl

/-- A header block is no zero block. -/
theorem headerBlock_ne_zeros (hname : name.length ≤ nameMax) (hpre : pre.length ≤ prefixLen) :
    headerBlock name pre typeflag size mode uid gid ≠ zeros blockSize := by
  intro h
  have hmagic : slice 257 6 (headerBlock name pre typeflag size mode uid gid) =
      [117, 115, 116, 97, 114, 0] :=
    slice_fixedField _ _ _ _ _ hname hpre (by simp [mem_headerFields]) rfl (.inr (by omega))
  rw [h, zeros, slice_replicate (by decide)] at hmagic
  exact absurd hmagic (by decide)

/-- **No magic of gzip**: the name of an entry is a part of a text, in which 0x8b does not
follow 0x1f. -/
theorem take_headerBlock_ne_gzip {text : List Char} (hname : name.length ≤ nameMax)
    (hpre : pre.length ≤ prefixLen) (hjoin : joinPath pre name = utf8 text) :
    (headerBlock name pre typeflag size mode uid gid).take 2 ≠ [0x1f, 0x8b] := by
  intro h
  have hfield := slice_name typeflag size mode uid gid hname hpre
  have hfront := congrArg (List.take 2) hfield
  rw [slice, List.drop_zero, List.take_take, show min 2 100 = 2 from rfl, h] at hfront
  obtain ⟨rest, rfl⟩ : ∃ rest, name = 0x1f :: 0x8b :: rest := by
    rcases name with _ | ⟨b, _ | ⟨c, rest⟩⟩
    · exact absurd hfront (by decide)
    · exact absurd hfront (by simp [zeros])
    · simp only [List.cons_append, List.take_succ_cons, List.take_zero, List.cons.injEq,
        and_true] at hfront
      exact ⟨rest, by rw [hfront.1, hfront.2]⟩
  obtain ⟨front, hpath⟩ : ∃ front, utf8 text = front ++ 0x1f :: 0x8b :: rest := by
    rw [← hjoin, joinPath]
    split
    · exact ⟨[], rfl⟩
    · exact ⟨pre ++ [slash], by simp⟩
  exact utf8_adjacent hpath (by decide) (by decide)

end

/-- What the parser makes of the archive of a sequence of calls: the data of the first entry
if it is a file. -/
def firstFile : List AppendCall → Except CopyFromContainerError Bytes
  | [] => .error .emptyArchive
  | .file _ data _ _ _ :: _ => .ok data
  | .directory _ _ _ _ :: _ => .error .isDirectory

/-- **An archive of the builder yields its first entry.** Without entries it begins with a
zero block. Otherwise its first block is the header of the first entry, which is no zero
block and not the start of a gzip file, and behind it there are the data. -/
theorem parseFirstRegularFile_finish {calls : List AppendCall} {b : UstarBuilder}
    {archive : Bytes} (htext : ∀ call ∈ calls, ∃ text, call.entry.header.path = utf8 text)
    (hcalls : AppendCall.applyAll UstarBuilder.new calls = .ok b)
    (hfinish : b.finish = .ok archive) :
    parseFirstRegularFileFromUstar archive = some (firstFile calls) := by
  obtain ⟨rfl, hlimit⟩ := UstarBuilder.finish_spec hfinish
  cases calls with
  | nil =>
      obtain rfl := Except.ok.inj hcalls
      have hzeros : UstarBuilder.new.buf ++ zeros (2 * blockSize) = zeros (2 * blockSize) := rfl
      have htake : ∀ n, n ≤ 2 * blockSize → (zeros (2 * blockSize)).take n = zeros n := by
        intro n hn
        rw [zeros, List.take_replicate, Nat.min_eq_left hn, zeros]
      rw [hzeros, parseFirstRegularFile_eq, htake 2 (by decide), if_neg (by decide),
        if_neg (by rw [length_zeros]; decide), htake blockSize (by omega), if_pos rfl, firstFile]
  | cons call calls =>
      obtain ⟨b₁, hcall, hrest⟩ := Outcomes.bind_eq_ok.mp hcalls
      obtain ⟨parts, hparts, -⟩ := AppendCall.isEncoding_all hrest
      obtain ⟨out, hheader, hbuf⟩ := AppendCall.apply_eq_ok hcall
      obtain ⟨name, pre, hsplit, hsize, -, -, rfl⟩ := appendHeader_eq_ok hheader
      obtain ⟨hname, hpre, -, -, hjoin⟩ := splitUstarPath_spec hsplit
      obtain ⟨text, hpath⟩ := htext call List.mem_cons_self
      set block := headerBlock name pre call.typeflag call.entry.header.size call.mode call.uid
        call.gid with hblock
      have hlen : block.length = blockSize := length_headerBlock _ _ _ _ _ hname hpre
      obtain ⟨tail, harchive⟩ : ∃ tail, b.buf ++ zeros (2 * blockSize) =
          block ++ (call.entry.data ++ tail) := by
        refine ⟨zeros (padding call.entry.data.length) ++ parts.flatten ++ zeros (2 * blockSize),
          ?_⟩
        rw [hparts, hbuf]
        simp [UstarBuilder.new]
      rw [harchive] at hlimit ⊢
      have hfirst : (block ++ (call.entry.data ++ tail)).take blockSize = block :=
        List.take_left' hlen
      have hgzip : (block ++ (call.entry.data ++ tail)).take 2 ≠ [0x1f, 0x8b] := by
        rw [List.take_append_of_le_length (by rw [hlen]; decide)]
        exact take_headerBlock_ne_gzip _ _ _ _ _ hname hpre (hjoin.trans hpath)
      have hzeros : block ≠ zeros blockSize := headerBlock_ne_zeros _ _ _ _ _ hname hpre
      rw [List.length_append, hlen, List.length_append] at hlimit
      cases call with
      | file path data mode uid gid =>
          have hfits : blockSize + data.length ≤ usizeMax :=
            Nat.le_trans (Nat.add_le_add_left (Nat.le_add_right _ _) _)
              (Nat.le_trans hlimit (by decide))
          refine parseFirstRegularFile_eq_ok.mpr ⟨hgzip, ?_, by rwa [hfirst], data.length, ?_,
            hfits, ?_, ?_⟩
          · rw [List.length_append, hlen]
            exact Nat.le_add_right _ _
          · rw [hfirst]
            exact fileSize_headerBlock_regular _ _ _ _ hname hpre hsize
          · rw [List.length_append, hlen, List.length_append]
            exact Nat.add_le_add_left (Nat.le_add_right _ _) _
          · rw [slice, List.drop_left' hlen]
            exact (List.take_left' rfl).symm
      | directory path mode uid gid =>
          have hsizeOf : fileSize block = some (.error .isDirectory) :=
            fileSize_headerBlock_directory _ _ _ _ hname hpre
          have hle : ¬ (block ++ ((AppendCall.directory path mode uid gid).entry.data ++
              tail)).length < blockSize := by
            rw [List.length_append, hlen]
            omega
          rw [parseFirstRegularFile_eq, if_neg hgzip, if_neg hle, hfirst, if_neg hzeros, hsizeOf,
            Option.bind_some, firstFile]

/-- **Parsing is safe and exact.** On every byte string the parser returns; what it accepts
has an intact header of a regular file and all of its data; and every archive that the
builder has made from paths in UTF-8 yields its first entry. -/
theorem parseFirstRegularFileFromUstar_spec :
    (∀ bytes, ∃ r, parseFirstRegularFileFromUstar bytes = some r) ∧
    (∀ bytes data, parseFirstRegularFileFromUstar bytes = some (.ok data) →
      (bytes[156]? = some 0 ∨ bytes[156]? = some 48) ∧
      parseChksum (slice 148 8 bytes) = .ok (checksum (bytes.take 512)) ∧
      ∃ size, parseOctal (slice 124 12 bytes) = .ok size ∧ 512 + size ≤ bytes.length ∧
        data = (bytes.drop 512).take size) ∧
    ∀ (calls : List AppendCall) (b : UstarBuilder) (archive : Bytes),
      (∀ call ∈ calls, ∃ text, call.entry.header.path = utf8 text) →
      AppendCall.applyAll UstarBuilder.new calls = .ok b → b.finish = .ok archive →
      parseFirstRegularFileFromUstar archive = some (firstFile calls) := by
  refine ⟨parseFirstRegularFile_total, ?_,
    fun calls b archive htext hcalls hfinish => parseFirstRegularFile_finish htext hcalls hfinish⟩
  intro bytes data h
  obtain ⟨-, hlen, -, size, hsize, -, hend, hdata⟩ := parseFirstRegularFile_eq_ok.mp h
  obtain ⟨hflag, hchksum, hoctal⟩ := (fileSize_eq_ok (length_take_blockSize hlen)).mp hsize
  rw [List.getElem?_take_of_lt (by decide)] at hflag
  rw [slice_take (by decide)] at hchksum hoctal
  exact ⟨hflag, hchksum, size, hoctal, hend, hdata⟩

/-- The calls for a file named "b" of one byte, and a directory. -/
def fileFirst : List AppendCall :=
  [.file [98] [120] 0o644 1000 1000, .directory [97, 47] 0o755 0 0]

/-- The file comes back. It is read from the archive that the calls have built. -/
theorem parseFirstRegularFileFromUstar_spec_fileFirst :
    ∃ b archive, AppendCall.applyAll UstarBuilder.new fileFirst = .ok b ∧
      b.finish = .ok archive ∧ parseFirstRegularFileFromUstar archive = some (.ok [120]) ∧
      (archive[156]? = some 0 ∨ archive[156]? = some 48) := by
  have htext : ∀ call ∈ fileFirst, ∃ text, call.entry.header.path = utf8 text := by
    intro call hcall
    simp only [fileFirst, List.mem_cons, List.not_mem_nil, or_false] at hcall
    rcases hcall with rfl | rfl
    · exact ⟨['b'], rfl⟩
    · exact ⟨['a', '/'], rfl⟩
  obtain ⟨archive, hb⟩ : ∃ archive,
      AppendCall.applyAll UstarBuilder.new fileFirst >>= UstarBuilder.finish = .ok archive :=
    Outcomes.isOk_iff.mp (by decide +kernel)
  obtain ⟨b, hcalls, hfinish⟩ := Outcomes.bind_eq_ok.mp hb
  have hparse := parseFirstRegularFileFromUstar_spec.2.2 fileFirst b archive htext hcalls hfinish
  exact ⟨b, archive, hcalls, hfinish, hparse,
    (parseFirstRegularFileFromUstar_spec.2.1 archive [120] hparse).1⟩

end ContainerRs
