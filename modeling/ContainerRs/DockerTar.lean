import ContainerRs.Lib.Bytes
import ContainerRs.Lib.Checked
import ContainerRs.Lib.Outcomes
import ContainerRs.Lib.Slices
import ContainerRs.Lib.Ustar

/-!
# Building ustar Archives

Files are copied to a container as a ustar archive built in memory by `UstarBuilder`
(docker_tar.rs): each `append_*` call writes a header block and padded data, `finish` adds
two zero blocks. A path that does not fit the name field is split at a separator into name
and prefix. Paths are the bytes of UTF-8 strings.

The archive is judged by the reference reader of `Lib.Ustar`.

## Main results

* `splitUstarPath_spec`: name and prefix fit their fields and join to the path.
* `readHeader_headerBlock`: a header block reads back.
* `AppendCall.isEncoding`: one successful call appends the encoding of its entry.
* `ustar_roundTrip`: an archive reads back as exactly the appended entries.
-/

namespace ContainerRs

open Checked Outcomes Positional Slices Ustar

/-! ### Constants and errors -/

/-- The largest archive, in bytes. -/
def dockerResponseBodyLimit : ℕ := 64 * 1024 * 1024

/-- The longest name without a prefix: one byte of the field stays for a NUL. -/
def nameMax : ℕ := 99

/-- The longest prefix. -/
def prefixLen : ℕ := 155

/-- The type flag of a regular file. -/
def typeflagRegular : UInt8 := 48

/-- The type flag of a directory. -/
def typeflagDirectory : UInt8 := 53

/-- The largest uid and gid: seven octal digits. -/
def octal7DigitMax : ℕ := 0o7777777

/-- The largest size: eleven octal digits. -/
def octal11DigitMax : ℕ := 0o77777777777

/-- The kinds of I/O error that copying reports itself. -/
inductive IoErrorKind
  | invalidData
  | other
  deriving DecidableEq, Repr

/-- Why copying to a container fails. -/
inductive CopyToContainerError
  | ioError (kind : IoErrorKind) (msg : String)
  | pathNameError (msg : String)
  | sizeLimitExceeded (limit : ℕ) (name : Bytes)
  deriving DecidableEq, Repr

/-- A number that does not fit its field. -/
def overflowErr (msg : String) : CopyToContainerError := .ioError .invalidData msg

/-- A path that is not acceptable. -/
def pathErr (msg : String) : CopyToContainerError := .pathNameError msg

/-! ### The header -/

/-- A number as octal digits closed by a NUL. -/
def writeOctal (value digits : ℕ) : Bytes := octalText digits value ++ [0]

/-- A checksum as six octal digits, a NUL and a space. -/
def writeChksum (sum : ℕ) : Bytes := octalText 6 sum ++ [0, 32]

/-- Whether a path may be split into `nameLen` bytes behind the separator and `preLen` bytes
in front of it. -/
def splitFits (nameLen preLen : ℕ) : Bool :=
  decide ((1 ≤ nameLen ∧ nameLen ≤ nameMax) ∧ 1 ≤ preLen ∧ preLen ≤ prefixLen)

/-- The better of the best split so far and the one at index `i`, as lengths of name and
prefix. -/
def betterSplit (bytes : Bytes) (best : Option (ℕ × ℕ)) (i : ℕ) : Option (ℕ × ℕ) :=
  if bytes[i]? = some slash then
    let nameLen := bytes.length - (i + 1)
    if splitFits nameLen i then
      match best with
      | none => some (nameLen, i)
      | some (bestName, _) => if nameLen > bestName then some (nameLen, i) else best
    else best
  else best

/-- Where the search for a split ends: a slash at the end of a directory stays with the
name. -/
def splitSearchEnd (path : Bytes) : ℕ :=
  if path.getLast? = some slash then path.length - 1 else path.length

/-- Split a path into name and prefix. -/
def splitUstarPath (path : Bytes) : Except CopyToContainerError (Bytes × Bytes) :=
  if path = [] then .error (pathErr "tar entry path must not be empty")
  else if path.contains 0 then .error (pathErr "tar entry path must not contain NUL")
  else if path.length ≤ nameMax then .ok (path, [])
  else if splitSearchEnd path = 0 then .error (pathErr "tar entry path must not be empty")
  else
    match (List.range (splitSearchEnd path)).foldl (betterSplit path) none with
    | none => .error (pathErr ("tar entry path too long to fit ustar name/prefix: " ++
        toString path.length ++ " bytes"))
    | some (_, preLen) => .ok (path.drop (preLen + 1), path.take preLen)

/-- What is written into a header block before its checksum, in order, each at its offset. -/
def headerFields (name pre : Bytes) (typeflag : UInt8) (size : ℕ) (mode uid gid : UInt32) :
    List (ℕ × Bytes) :=
  [(0, name)] ++ (if pre ≠ [] then [(345, pre)] else []) ++
    [(100, writeOctal (mode &&& 0o7777).toNat 7), (108, writeOctal uid.toNat 7),
      (116, writeOctal gid.toNat 7), (124, writeOctal size 11), (136, writeOctal 0 11),
      (156, [typeflag]), (257, [117, 115, 116, 97, 114, 0]), (263, [48, 48])]

/-- A header block with spaces in place of the checksum. -/
def headerWithoutChksum (name pre : Bytes) (typeflag : UInt8) (size : ℕ)
    (mode uid gid : UInt32) : Bytes :=
  patch 148 (List.replicate 8 32)
    (patchAll (headerFields name pre typeflag size mode uid gid) (zeros blockSize))

/-- The sum of the bytes of a header block with spaces in place of the checksum. -/
def headerSum (name pre : Bytes) (typeflag : UInt8) (size : ℕ) (mode uid gid : UInt32) : ℕ :=
  ((headerWithoutChksum name pre typeflag size mode uid gid).map UInt8.toNat).sum

/-- A header block with its checksum. -/
def headerBlock (name pre : Bytes) (typeflag : UInt8) (size : ℕ) (mode uid gid : UInt32) :
    Bytes :=
  patch 148 (writeChksum (headerSum name pre typeflag size mode uid gid))
    (headerWithoutChksum name pre typeflag size mode uid gid)

/-- Append a header block to the archive. -/
def appendHeader (out path : Bytes) (typeflag : UInt8) (size : ℕ) (mode uid gid : UInt32) :
    Except CopyToContainerError Bytes :=
  if uid.toNat > octal7DigitMax then
    .error (overflowErr ("uid " ++ toString uid.toNat ++
      " exceeds ustar 7-octal-digit limit (" ++ toString octal7DigitMax ++ ")"))
  else if gid.toNat > octal7DigitMax then
    .error (overflowErr ("gid " ++ toString gid.toNat ++
      " exceeds ustar 7-octal-digit limit (" ++ toString octal7DigitMax ++ ")"))
  else if size > octal11DigitMax then
    .error (overflowErr ("data size " ++ toString size ++
      " exceeds ustar 11-octal-digit limit (" ++ toString octal11DigitMax ++ ")"))
  else do
    let (name, pre) ← splitUstarPath path
    .ok (out ++ headerBlock name pre typeflag size mode uid gid)

/-! ### The builder -/

/-- The archive built so far. -/
structure UstarBuilder where
  buf : Bytes
  deriving DecidableEq, Repr

namespace UstarBuilder

/-- An empty archive. -/
def new : UstarBuilder := { buf := [] }

/-- The archive must not be larger than the limit. -/
def checkLimit (b : UstarBuilder) (name : Bytes) : Except CopyToContainerError Unit :=
  if b.buf.length > dockerResponseBodyLimit then
    .error (.sizeLimitExceeded dockerResponseBodyLimit name)
  else .ok ()

/-- Append a directory; its path ends in a slash. -/
def appendDirectory (b : UstarBuilder) (path : Bytes) (mode uid gid : UInt32) :
    Except CopyToContainerError UstarBuilder :=
  if path.getLast? ≠ some slash then
    .error (pathErr "directory tar entry path must end with a slash")
  else do
    let buf ← appendHeader b.buf path typeflagDirectory 0 mode uid gid
    let b : UstarBuilder := { buf }
    b.checkLimit path
    .ok b

/-- Append a regular file; whether it fits is decided before anything is written. -/
def appendFile (b : UstarBuilder) (path data : Bytes) (mode uid gid : UInt32) :
    Except CopyToContainerError UstarBuilder :=
  if path.getLast? = some slash then
    .error (pathErr "file tar entry path must not end with a slash")
  else
    let pad := (blockSize - data.length % blockSize) % blockSize
    let projected := b.buf.length + blockSize + data.length + pad
    if projected > usizeMax then .error (overflowErr "tar size overflow")
    else if projected > dockerResponseBodyLimit then
      .error (.sizeLimitExceeded dockerResponseBodyLimit path)
    else do
      let buf ← appendHeader b.buf path typeflagRegular data.length mode uid gid
      .ok { buf := buf ++ data ++ zeros pad }

/-- The bytes of the text "tar trailer". -/
def tarTrailer : Bytes := [116, 97, 114, 32, 116, 114, 97, 105, 108, 101, 114]

/-- Close the archive with two zero blocks. -/
def finish (b : UstarBuilder) : Except CopyToContainerError Bytes := do
  let b : UstarBuilder := { buf := b.buf ++ zeros (blockSize * 2) }
  b.checkLimit tarTrailer
  .ok b.buf

end UstarBuilder

/-- A call of the builder. -/
inductive AppendCall
  | file (path data : Bytes) (mode uid gid : UInt32)
  | directory (path : Bytes) (mode uid gid : UInt32)
  deriving DecidableEq, Repr

namespace AppendCall

/-- Make the call. -/
def apply (b : UstarBuilder) : AppendCall → Except CopyToContainerError UstarBuilder
  | .file path data mode uid gid => b.appendFile path data mode uid gid
  | .directory path mode uid gid => b.appendDirectory path mode uid gid

/-- The entry that the call is to append. -/
def entry : AppendCall → Entry
  | .file path data mode uid gid =>
      { header := { path, kind := .file, size := data.length, mode := (mode &&& 0o7777).toNat
                    uid := uid.toNat, gid := gid.toNat }
        data }
  | .directory path mode uid gid =>
      { header := { path, kind := .directory, size := 0, mode := (mode &&& 0o7777).toNat
                    uid := uid.toNat, gid := gid.toNat }
        data := [] }

/-- The type flag that the call writes. -/
def typeflag : AppendCall → UInt8
  | .file .. => typeflagRegular
  | .directory .. => typeflagDirectory

/-- The mode of the call. -/
def mode : AppendCall → UInt32
  | .file _ _ mode _ _ | .directory _ mode _ _ => mode

/-- The uid of the call. -/
def uid : AppendCall → UInt32
  | .file _ _ _ uid _ | .directory _ _ uid _ => uid

/-- The gid of the call. -/
def gid : AppendCall → UInt32
  | .file _ _ _ _ gid | .directory _ _ _ gid => gid

/-- Make calls one after the other. -/
def applyAll (b : UstarBuilder) : List AppendCall → Except CopyToContainerError UstarBuilder
  | [] => .ok b
  | call :: calls => do
      let b ← call.apply b
      applyAll b calls

end AppendCall

/-! ### Splitting a path -/

/-- A split that the search holds is at a separator and fits the fields. -/
def GoodSplit (path : Bytes) (split : ℕ × ℕ) : Prop :=
  path[split.2]? = some slash ∧ split.1 = path.length - (split.2 + 1) ∧
    (1 ≤ split.1 ∧ split.1 ≤ nameMax) ∧ 1 ≤ split.2 ∧ split.2 ≤ prefixLen

/-- An iteration of the search keeps only splits that fit, whatever the best one was
before. -/
theorem goodSplit_betterSplit {path : Bytes} {best : Option (ℕ × ℕ)}
    (h : ∀ split ∈ best, GoodSplit path split) (i : ℕ) :
    ∀ split ∈ betterSplit path best i, GoodSplit path split := by
  rw [betterSplit]
  split
  · next hslash =>
      dsimp only
      split
      · next hfits =>
          rw [splitFits, decide_eq_true_eq] at hfits
          have hnew : ∀ split ∈ some (path.length - (i + 1), i), GoodSplit path split := by
            intro split hmem
            obtain rfl := Option.mem_some_iff.mp hmem
            exact ⟨hslash, rfl, hfits⟩
          split
          · exact hnew
          · split
            · exact hnew
            · exact h
      · exact h
  · exact h

/-- **What the search has found fits**, by induction on the slashes it looks at. -/
theorem goodSplit_foldl {path : Bytes} (indices : List ℕ) {best : Option (ℕ × ℕ)}
    (h : ∀ split ∈ best, GoodSplit path split) :
    ∀ split ∈ indices.foldl (betterSplit path) best, GoodSplit path split := by
  induction indices generalizing best with
  | nil => exact h
  | cons i indices ih => exact ih (goodSplit_betterSplit h i)

/-- **Splitting a path**: both parts fit their fields and are free of NULs, and they join to
the path. -/
theorem splitUstarPath_spec {path name pre : Bytes}
    (h : splitUstarPath path = .ok (name, pre)) :
    name.length ≤ nameMax ∧ pre.length ≤ prefixLen ∧ 0 ∉ name ∧ 0 ∉ pre ∧
      joinPath pre name = path := by
  rw [splitUstarPath] at h
  split at h
  · exact absurd h (by simp)
  split at h
  · exact absurd h (by simp)
  next hnul =>
  have hno : (0 : UInt8) ∉ path := by simpa using hnul
  split at h
  · next hshort =>
      obtain ⟨rfl, rfl⟩ := Prod.mk.inj (Except.ok.inj h)
      exact ⟨hshort, Nat.zero_le _, hno, List.not_mem_nil, rfl⟩
  split at h
  · exact absurd h (by simp)
  split at h
  · exact absurd h (by simp)
  next nameLen preLen hbest =>
  obtain ⟨rfl, rfl⟩ := Prod.mk.inj (Except.ok.inj h)
  obtain ⟨hslash, hname, ⟨hname₁, hnameMax⟩, hpre₁, hpreMax⟩ :=
    goodSplit_foldl _ (by simp) _ hbest
  simp only at hslash hname hname₁ hnameMax hpre₁ hpreMax
  have htake : (path.take preLen).length = preLen := by
    rw [List.length_take]
    omega
  refine ⟨?_, ?_, fun hmem => hno (List.mem_of_mem_drop hmem),
    fun hmem => hno (List.mem_of_mem_take hmem), ?_⟩
  · rw [List.length_drop]
    omega
  · rw [htake]
    exact hpreMax
  · obtain ⟨hlt, hget⟩ := List.getElem?_eq_some_iff.mp hslash
    rw [joinPath, if_neg (List.ne_nil_of_length_pos (by omega)), ← hget,
      List.cons_getElem_drop_succ, List.take_append_drop]

/-! ### Reading a header back -/

/-- An octal field has its digits and the NUL behind them. -/
@[simp] theorem length_writeOctal (value digits : ℕ) :
    (writeOctal value digits).length = digits + 1 := by
  rw [writeOctal, List.length_append, length_octalText, List.length_singleton]

/-- The checksum field has eight bytes. -/
@[simp] theorem length_writeChksum (sum : ℕ) : (writeChksum sum).length = 8 := by
  rw [writeChksum, List.length_append, length_octalText]
  rfl

/-- A block of zeros is as long as asked for. -/
@[simp] theorem length_zeros (n : ℕ) : (zeros n).length = n := List.length_replicate

/-- **Numbers read back** from their field, if they are in range of its digits. -/
theorem readOctal_writeOctal {value digits : ℕ} (hdigits : 0 < digits)
    (h : value < 8 ^ digits) : readOctal (writeOctal value digits) = some value :=
  readOctal_octalText hdigits h []

/-- A string with zero bytes behind it, or none if it fills its field, reads back. -/
theorem readString_zeros {xs : Bytes} (h : 0 ∉ xs) (n : ℕ) : readString (xs ++ zeros n) = xs := by
  cases n with
  | zero =>
      rw [zeros, List.replicate_zero, List.append_nil]
      exact Fields.takeWhile_ne_self h
  | succ n => exact readString_append h _

section

variable {name pre : Bytes} (typeflag : UInt8) (size : ℕ) (mode uid gid : UInt32)

/-- Where the fields of a header are: no one reaches into another one's place. -/
theorem mem_headerFields {field : ℕ × Bytes} :
    field ∈ headerFields name pre typeflag size mode uid gid ↔
      field = (0, name) ∨ (pre ≠ [] ∧ field = (345, pre)) ∨
        field = (100, writeOctal (mode &&& 0o7777).toNat 7) ∨
        field = (108, writeOctal uid.toNat 7) ∨ field = (116, writeOctal gid.toNat 7) ∨
        field = (124, writeOctal size 11) ∨ field = (136, writeOctal 0 11) ∨
        field = (156, [typeflag]) ∨ field = (257, [117, 115, 116, 97, 114, 0]) ∨
        field = (263, [48, 48]) := by
  by_cases hpre : pre = [] <;> simp [headerFields, hpre]

/-- Every field of a header lies within the block, when name and prefix fit their
fields. -/
theorem within_headerFields (hname : name.length ≤ nameMax) (hpre : pre.length ≤ prefixLen) :
    Within (zeros blockSize).length (headerFields name pre typeflag size mode uid gid) := by
  rw [nameMax] at hname
  rw [prefixLen] at hpre
  intro field hfield
  rw [length_zeros, blockSize]
  rcases (mem_headerFields _ _ _ _ _).mp hfield with
    rfl | ⟨-, rfl⟩ | rfl | rfl | rfl | rfl | rfl | rfl | rfl | rfl <;> simp <;> omega

/-- A header is a block before the checksum is written. -/
theorem length_headerWithoutChksum (hname : name.length ≤ nameMax)
    (hpre : pre.length ≤ prefixLen) :
    (headerWithoutChksum name pre typeflag size mode uid gid).length = blockSize := by
  have hfields := (within_headerFields typeflag size mode uid gid hname hpre).length_patchAll
  rw [length_zeros] at hfields
  rw [headerWithoutChksum, length_patch, hfields]
  rw [hfields, List.length_replicate, blockSize]
  omega

/-- A header is a block. -/
theorem length_headerBlock (hname : name.length ≤ nameMax) (hpre : pre.length ≤ prefixLen) :
    (headerBlock name pre typeflag size mode uid gid).length = blockSize := by
  have hwithout := length_headerWithoutChksum typeflag size mode uid gid hname hpre
  rw [headerBlock, length_patch, hwithout]
  rw [hwithout, length_writeChksum, blockSize]
  omega

/-- Beside the checksum a header block reads as the fields written before it. The checksum
is patched in last, and the range lies before it or behind. -/
theorem slice_headerBlock {off len : ℕ} (hname : name.length ≤ nameMax)
    (hpre : pre.length ≤ prefixLen) (h : off + len ≤ 148 ∨ 156 ≤ off) :
    slice off len (headerBlock name pre typeflag size mode uid gid) =
      slice off len
        (patchAll (headerFields name pre typeflag size mode uid gid) (zeros blockSize)) := by
  have hfields := (within_headerFields typeflag size mode uid gid hname hpre).length_patchAll
  have hwithout := length_headerWithoutChksum typeflag size mode uid gid hname hpre
  have hbeside : Beside off len (148, writeChksum (headerSum name pre typeflag size mode uid gid)) ∧
      Beside off len (148, List.replicate 8 (32 : UInt8)) := by
    simp only [Beside, length_writeChksum, List.length_replicate]
    omega
  rw [length_zeros] at hfields
  rw [headerBlock,
    slice_patch_of_beside hbeside.1 (by simp only [hwithout, length_writeChksum]; decide),
    headerWithoutChksum,
    slice_patch_of_beside hbeside.2 (by rw [hfields, List.length_replicate]; decide)]

/-- A field that the others leave alone reads back, with zero bytes up to the length that is
read. -/
theorem slice_headerField {off len : ℕ} {new : Bytes} (hname : name.length ≤ nameMax)
    (hpre : pre.length ≤ prefixLen) (h : off + len ≤ 148 ∨ 156 ≤ off ∧ off + len ≤ 512)
    (hmem : (off, new) ∈ headerFields name pre typeflag size mode uid gid)
    (hlen : new.length ≤ len)
    (hother : ∀ field ∈ headerFields name pre typeflag size mode uid gid,
      field = (off, new) ∨ Beside off len field) :
    slice off len (headerBlock name pre typeflag size mode uid gid) =
      new ++ zeros (len - new.length) := by
  rw [slice_headerBlock _ _ _ _ _ hname hpre (by omega),
    slice_patchAll_of_mem (within_headerFields _ _ _ _ _ hname hpre) hmem hlen hother, zeros,
    slice_replicate (by rw [blockSize]; omega), zeros]

/-- No two fields of a header overlap. -/
theorem headerFields_beside (hname : name.length ≤ nameMax) {field other : ℕ × Bytes}
    (hfield : field ∈ headerFields name pre typeflag size mode uid gid)
    (hother : other ∈ headerFields name pre typeflag size mode uid gid) :
    other = field ∨ Beside field.1 field.2.length other := by
  rw [nameMax] at hname
  rcases (mem_headerFields _ _ _ _ _).mp hfield with rfl | ⟨-, rfl⟩ | rfl | rfl | rfl | rfl |
    rfl | rfl | rfl | rfl <;>
  rcases (mem_headerFields _ _ _ _ _).mp hother with
    rfl | ⟨-, rfl⟩ | rfl | rfl | rfl | rfl | rfl | rfl | rfl | rfl <;> simp [Beside] <;> omega

/-- A field of fixed length reads back exactly. -/
theorem slice_fixedField {off len : ℕ} {new : Bytes} (hname : name.length ≤ nameMax)
    (hpre : pre.length ≤ prefixLen)
    (hmem : (off, new) ∈ headerFields name pre typeflag size mode uid gid)
    (hlen : new.length = len) (h : off + len ≤ 148 ∨ 156 ≤ off ∧ off + len ≤ 512) :
    slice off len (headerBlock name pre typeflag size mode uid gid) = new := by
  subst hlen
  rw [slice_headerField _ _ _ _ _ hname hpre h hmem le_rfl
    (fun _ hother => headerFields_beside _ _ _ _ _ hname hmem hother), Nat.sub_self, zeros,
    List.replicate_zero, List.append_nil]

/-- An octal field reads back. -/
theorem readOctal_headerField {off value digits : ℕ} (hname : name.length ≤ nameMax)
    (hpre : pre.length ≤ prefixLen)
    (hmem : (off, writeOctal value digits) ∈ headerFields name pre typeflag size mode uid gid)
    (h : off + (digits + 1) ≤ 148) (hdigits : 0 < digits) (hvalue : value < 8 ^ digits) :
    readOctal (slice off (digits + 1) (headerBlock name pre typeflag size mode uid gid)) =
      some value := by
  rw [slice_fixedField _ _ _ _ _ hname hpre hmem (length_writeOctal _ _) (.inl h)]
  exact readOctal_writeOctal hdigits hvalue

/-- The name field is the name with zero bytes behind it. -/
theorem slice_name (hname : name.length ≤ nameMax) (hpre : pre.length ≤ prefixLen) :
    slice 0 100 (headerBlock name pre typeflag size mode uid gid) =
      name ++ zeros (100 - name.length) := by
  refine slice_headerField _ _ _ _ _ hname hpre (.inl (by omega))
    ((mem_headerFields _ _ _ _ _).mpr (.inl rfl)) (hname.trans (by decide)) ?_
  intro field hfield
  rcases (mem_headerFields _ _ _ _ _).mp hfield with rfl | ⟨-, rfl⟩ | rfl | rfl | rfl | rfl |
    rfl | rfl | rfl | rfl <;> simp [Beside]

/-- The name field reads back. -/
theorem readString_name (hname : name.length ≤ nameMax) (hpre : pre.length ≤ prefixLen)
    (hname₀ : 0 ∉ name) :
    readString (slice 0 100 (headerBlock name pre typeflag size mode uid gid)) = name := by
  rw [slice_name _ _ _ _ _ hname hpre, readString_zeros hname₀]

/-- The prefix field reads back, also when nothing was written to it. It is the last
field, and without a prefix the zeros of the block are read. -/
theorem readString_prefix (hname : name.length ≤ nameMax) (hpre : pre.length ≤ prefixLen)
    (hpre₀ : 0 ∉ pre) :
    readString (slice 345 155 (headerBlock name pre typeflag size mode uid gid)) = pre := by
  have hbeside : ∀ field ∈ headerFields name pre typeflag size mode uid gid,
      field = (345, pre) ∨ Beside 345 155 field := by
    rw [nameMax] at hname
    intro field hfield
    rcases (mem_headerFields _ _ _ _ _).mp hfield with
      rfl | ⟨-, rfl⟩ | rfl | rfl | rfl | rfl | rfl | rfl | rfl | rfl <;> simp [Beside]
    omega
  by_cases hnil : pre = []
  · subst hnil
    have hno : ∀ field ∈ headerFields name [] typeflag size mode uid gid,
        Beside 345 155 field := fun field hfield => by
      rcases hbeside field hfield with rfl | hfield
      · exact absurd ((mem_headerFields _ _ _ _ _).mp hfield) (by simp)
      · exact hfield
    rw [slice_headerBlock _ _ _ _ _ hname hpre (.inr (by omega)),
      slice_patchAll_of_beside (within_headerFields _ _ _ _ _ hname hpre) hno, zeros,
      slice_replicate (by decide)]
    exact readString_zeros List.not_mem_nil 155
  · have hlen : pre.length ≤ 155 := hpre
    rw [slice_headerField _ _ _ _ _ hname hpre (.inr (by omega))
      ((mem_headerFields _ _ _ _ _).mpr (.inr (.inl ⟨hnil, rfl⟩))) hlen hbeside,
      readString_zeros hpre₀]

/-- The checksum written is that of the block: with spaces in the place of the checksum, the block
is again the one that was summed up. -/
theorem slice_chksum (hname : name.length ≤ nameMax) (hpre : pre.length ≤ prefixLen) :
    slice 148 8 (headerBlock name pre typeflag size mode uid gid) =
      writeChksum (checksum (headerBlock name pre typeflag size mode uid gid)) := by
  have hfields := (within_headerFields typeflag size mode uid gid hname hpre).length_patchAll
  have hwithout := length_headerWithoutChksum typeflag size mode uid gid hname hpre
  rw [length_zeros] at hfields
  have hspaces : patch 148 (List.replicate 8 32)
      (headerBlock name pre typeflag size mode uid gid) =
      headerWithoutChksum name pre typeflag size mode uid gid := by
    rw [headerBlock, patch_patch (by rw [length_writeChksum, List.length_replicate])
      (by rw [hwithout]; decide), headerWithoutChksum, patch_patch rfl (by rw [hfields]; decide)]
  have hsum : checksum (headerBlock name pre typeflag size mode uid gid) =
      headerSum name pre typeflag size mode uid gid := by
    rw [checksum, hspaces, headerSum]
  rw [hsum, headerBlock, slice_patch_self (by rw [hwithout]; decide) (length_writeChksum _)]

/-- The checksum written is the checksum read. -/
theorem readOctal_chksum (hname : name.length ≤ nameMax) (hpre : pre.length ≤ prefixLen) :
    readOctal (slice 148 8 (headerBlock name pre typeflag size mode uid gid)) =
      some (checksum (headerBlock name pre typeflag size mode uid gid)) := by
  rw [slice_chksum _ _ _ _ _ hname hpre, writeChksum]
  exact readOctal_octalText (by omega)
    (checksum_lt (length_headerBlock typeflag size mode uid gid hname hpre)) [32]

/-- **A header block reads back.** Each field reads back by itself, from its own place in
the block, and the checksum is the sum of the block with spaces in its place. -/
theorem readHeader_headerBlock {kind : Kind} (hname : name.length ≤ nameMax)
    (hpre : pre.length ≤ prefixLen) (hname₀ : 0 ∉ name) (hpre₀ : 0 ∉ pre)
    (hkind : readKind [typeflag] = some kind) (hsize : size ≤ octal11DigitMax)
    (huid : uid.toNat ≤ octal7DigitMax) (hgid : gid.toNat ≤ octal7DigitMax) :
    readHeader (headerBlock name pre typeflag size mode uid gid) =
      some { path := joinPath pre name, kind, size, mode := (mode &&& 0o7777).toNat
             uid := uid.toNat, gid := gid.toNat } := by
  have hoctal : ∀ off value digits,
      (off, writeOctal value digits) ∈ headerFields name pre typeflag size mode uid gid →
      off + (digits + 1) ≤ 148 → 0 < digits → value < 8 ^ digits →
      readOctal (slice off (digits + 1) (headerBlock name pre typeflag size mode uid gid)) =
        some value := fun _ _ _ => readOctal_headerField _ _ _ _ _ hname hpre
  have hmode : (mode &&& 0o7777).toNat < 8 ^ 7 := by
    rw [UInt32.toNat_and]
    exact Nat.and_le_right.trans_lt (by decide)
  rw [octal11DigitMax] at hsize
  rw [octal7DigitMax] at huid hgid
  have hfixed : ∀ off len new,
      (off, new) ∈ headerFields name pre typeflag size mode uid gid → new.length = len →
      156 ≤ off ∧ off + len ≤ 512 →
      slice off len (headerBlock name pre typeflag size mode uid gid) = new :=
    fun _ _ _ hmem hlen h => slice_fixedField _ _ _ _ _ hname hpre hmem hlen (.inr h)
  have hmagic := hfixed 257 6 [117, 115, 116, 97, 114, 0] (by simp [mem_headerFields]) rfl
    (by omega)
  have hversion := hfixed 263 2 [48, 48] (by simp [mem_headerFields]) rfl (by omega)
  have hflag := hfixed 156 1 [typeflag] (by simp [mem_headerFields]) rfl (by omega)
  have hsize' := hoctal 124 size 11 (by simp [mem_headerFields]) (by omega) (by omega)
    (by omega)
  have hmode' := hoctal 100 (mode &&& 0o7777).toNat 7 (by simp [mem_headerFields]) (by omega)
    (by omega) hmode
  have huid' := hoctal 108 uid.toNat 7 (by simp [mem_headerFields]) (by omega) (by omega)
    (by omega)
  have hgid' := hoctal 116 gid.toNat 7 (by simp [mem_headerFields]) (by omega) (by omega)
    (by omega)
  rw [readHeader, if_pos ⟨hmagic, hversion, readOctal_chksum _ _ _ _ _ hname hpre⟩, hflag, hkind,
    hsize', hmode', huid', hgid', readString_name _ _ _ _ _ hname hpre hname₀,
    readString_prefix _ _ _ _ _ hname hpre hpre₀]
  rfl

end

/-! ### Whole archives -/

/-- A successful header is one block; its numbers and the parts of its path fit. The
checks of the code are made one after the other, before anything is written. -/
theorem appendHeader_eq_ok {out out' path : Bytes} {typeflag : UInt8} {size : ℕ}
    {mode uid gid : UInt32} (h : appendHeader out path typeflag size mode uid gid = .ok out') :
    ∃ name pre, splitUstarPath path = .ok (name, pre) ∧ size ≤ octal11DigitMax ∧
      uid.toNat ≤ octal7DigitMax ∧ gid.toNat ≤ octal7DigitMax ∧
      out' = out ++ headerBlock name pre typeflag size mode uid gid := by
  rw [appendHeader] at h
  split at h
  · exact absurd h (by simp)
  next huid =>
  split at h
  · exact absurd h (by simp)
  next hgid =>
  split at h
  · exact absurd h (by simp)
  next hsize =>
  obtain ⟨⟨name, pre⟩, hsplit, hout⟩ := bind_eq_ok.mp h
  exact ⟨name, pre, hsplit, Nat.not_lt.mp hsize, Nat.not_lt.mp huid, Nat.not_lt.mp hgid,
    (Except.ok.inj hout).symm⟩

/-- A successful header reads back as the entry's. -/
theorem appendHeader_spec {out out' path : Bytes} {typeflag : UInt8} {kind : Kind} {size : ℕ}
    {mode uid gid : UInt32} (hkind : readKind [typeflag] = some kind)
    (h : appendHeader out path typeflag size mode uid gid = .ok out') :
    ∃ block, block.length = blockSize ∧ out' = out ++ block ∧
      readHeader block = some { path, kind, size, mode := (mode &&& 0o7777).toNat
                                uid := uid.toNat, gid := gid.toNat } := by
  obtain ⟨name, pre, hsplit, hsize, huid, hgid, rfl⟩ := appendHeader_eq_ok h
  obtain ⟨hname, hpre, hname₀, hpre₀, hjoin⟩ := splitUstarPath_spec hsplit
  refine ⟨headerBlock name pre typeflag size mode uid gid,
    length_headerBlock _ _ _ _ _ hname hpre, rfl, ?_⟩
  rw [readHeader_headerBlock _ _ _ _ _ hname hpre hname₀ hpre₀ hkind hsize huid hgid, hjoin]

/-- An archive that passes the check is within the limit. -/
theorem UstarBuilder.length_le_of_checkLimit {b : UstarBuilder} {name : Bytes} {u : Unit}
    (h : b.checkLimit name = .ok u) : b.buf.length ≤ dockerResponseBodyLimit := by
  rw [checkLimit] at h
  split at h
  · exact absurd h (by simp)
  · exact Nat.not_lt.mp ‹_›

namespace AppendCall

/-- A successful call appends one header block, the data and zero bytes up to whole
blocks. -/
theorem apply_eq_ok {b b' : UstarBuilder} {call : AppendCall} (h : call.apply b = .ok b') :
    ∃ out, appendHeader b.buf call.entry.header.path call.typeflag call.entry.header.size
        call.mode call.uid call.gid = .ok out ∧
      b'.buf = out ++ (call.entry.data ++ zeros (padding call.entry.data.length)) := by
  cases call with
  | file path data mode uid gid =>
      rw [apply, UstarBuilder.appendFile] at h
      split at h
      · exact absurd h (by simp)
      dsimp only at h
      split at h
      · exact absurd h (by simp)
      split at h
      · exact absurd h (by simp)
      obtain ⟨out, hheader, hb⟩ := bind_eq_ok.mp h
      obtain rfl := Except.ok.inj hb
      exact ⟨out, hheader, List.append_assoc out data _⟩
  | directory path mode uid gid =>
      rw [apply, UstarBuilder.appendDirectory] at h
      split at h
      · exact absurd h (by simp)
      obtain ⟨out, hheader, hb⟩ := bind_eq_ok.mp h
      obtain ⟨-, -, hb⟩ := bind_eq_ok.mp hb
      obtain rfl := Except.ok.inj hb
      have hnone : zeros (padding 0) = [] := rfl
      exact ⟨out, hheader, by simp [entry, hnone]⟩

/-- **One call**: a successful call appends the encoding of its entry. -/
theorem isEncoding {b b' : UstarBuilder} {call : AppendCall} (h : call.apply b = .ok b') :
    ∃ part, b'.buf = b.buf ++ part ∧ IsEncoding part call.entry := by
  obtain ⟨out, hheader, hbuf⟩ := apply_eq_ok h
  have hkind : readKind [call.typeflag] = some call.entry.header.kind := by
    cases call <;> rfl
  obtain ⟨block, hlen, rfl, hread⟩ := appendHeader_spec hkind hheader
  refine ⟨block ++ (call.entry.data ++ zeros (padding call.entry.data.length)), ?_, block, hlen,
    ?_, ?_, rfl⟩
  · rw [hbuf, List.append_assoc]
  · rw [hread]
    cases call <;> rfl
  · cases call <;> rfl

/-- **All calls**: successful calls append the encodings of their entries, in order. By
induction on the calls. -/
theorem isEncoding_all {b b' : UstarBuilder} {calls : List AppendCall}
    (h : applyAll b calls = .ok b') :
    ∃ parts, b'.buf = b.buf ++ parts.flatten ∧
      List.Forall₂ IsEncoding parts (calls.map entry) := by
  induction calls generalizing b with
  | nil =>
      obtain rfl := Except.ok.inj h
      exact ⟨[], (List.append_nil _).symm, .nil⟩
  | cons call calls ih =>
      obtain ⟨b₁, hcall, hrest⟩ := bind_eq_ok.mp h
      obtain ⟨part, hpart, hencoding⟩ := isEncoding hcall
      obtain ⟨parts, hparts, hall⟩ := ih hrest
      refine ⟨part :: parts, ?_, .cons hencoding hall⟩
      rw [hparts, hpart, List.flatten_cons, List.append_assoc]

end AppendCall

/-- A finished archive is what was built with two zero blocks, within the limit. -/
theorem UstarBuilder.finish_spec {b : UstarBuilder} {archive : Bytes}
    (h : b.finish = .ok archive) :
    archive = b.buf ++ zeros (2 * blockSize) ∧ archive.length ≤ dockerResponseBodyLimit := by
  rw [finish] at h
  obtain ⟨u, hlimit, h⟩ := bind_eq_ok.mp h
  obtain rfl := Except.ok.inj h
  exact ⟨by rw [Nat.mul_comm], UstarBuilder.length_le_of_checkLimit hlimit⟩

/-- Encoded entries fill whole blocks. -/
theorem length_flatten_mod {parts : List Bytes} {entries : List Entry}
    (h : List.Forall₂ IsEncoding parts entries) : parts.flatten.length % blockSize = 0 := by
  induction h with
  | nil => rfl
  | cons hpart _ ih =>
      have hmod := hpart.length.2
      rw [List.flatten_cons, List.length_append, Nat.add_mod, hmod, ih, Nat.add_zero,
        Nat.zero_mod]

/-- A finished archive reads back as the appended entries. -/
theorem AppendCall.readArchive_finish {calls : List AppendCall} {b : UstarBuilder}
    {archive : Bytes} (hcalls : applyAll UstarBuilder.new calls = .ok b)
    (hfinish : b.finish = .ok archive) : readArchive archive = some (calls.map entry) := by
  obtain ⟨parts, hparts, hall⟩ := isEncoding_all hcalls
  obtain ⟨rfl, -⟩ := UstarBuilder.finish_spec hfinish
  have hbuf : b.buf = parts.flatten := hparts
  rw [hbuf]
  exact readArchive_append hall

/-- **Archives round-trip.** Whenever a sequence of append calls and the final `finish`
succeed, the reference reader accepts the archive and recovers exactly the appended entries
in order; the archive fills whole blocks and is within the limit. And the checksum of every
header fits the six octal digits written for it. -/
theorem ustar_roundTrip :
    (∀ (calls : List AppendCall) (b : UstarBuilder) (archive : Bytes),
      AppendCall.applyAll UstarBuilder.new calls = .ok b → b.finish = .ok archive →
      readArchive archive = some (calls.map AppendCall.entry) ∧
        archive.length % 512 = 0 ∧ archive.length ≤ 64 * 1024 * 1024) ∧
    ∀ (path name pre : Bytes) (typeflag : UInt8) (size : ℕ) (mode uid gid : UInt32),
      splitUstarPath path = .ok (name, pre) →
      headerSum name pre typeflag size mode uid gid < 8 ^ 6 := by
  constructor
  · intro calls b archive hcalls hfinish
    refine ⟨AppendCall.readArchive_finish hcalls hfinish, ?_⟩
    obtain ⟨parts, hparts, hall⟩ := AppendCall.isEncoding_all hcalls
    obtain ⟨rfl, hlimit⟩ := UstarBuilder.finish_spec hfinish
    have hbuf : b.buf = parts.flatten := hparts
    rw [hbuf] at hlimit ⊢
    refine ⟨?_, hlimit⟩
    have hmod := length_flatten_mod hall
    simp only [List.length_append, length_zeros, blockSize] at hmod ⊢
    omega
  · intro path name pre typeflag size mode uid gid hsplit
    obtain ⟨hname, hpre, -⟩ := splitUstarPath_spec hsplit
    have hsum := sum_map_toNat_le (headerWithoutChksum name pre typeflag size mode uid gid)
    rw [length_headerWithoutChksum _ _ _ _ _ hname hpre, blockSize] at hsum
    rw [headerSum]
    omega

/-- The calls for a directory with a file of one byte. -/
def dirWithFile : List AppendCall :=
  [.directory [97, 47] 0o755 0 0, .file [97, 47, 98] [120] 0o644 1000 1000]

/-- The round trip of a directory with a file. The sum of its first header fits its six
digits. -/
theorem ustar_roundTrip_dirWithFile :
    ∃ b archive, AppendCall.applyAll UstarBuilder.new dirWithFile = .ok b ∧
      b.finish = .ok archive ∧ readArchive archive = some (dirWithFile.map AppendCall.entry) ∧
      headerSum [97, 47] [] typeflagDirectory 0 0o755 0 0 < 8 ^ 6 := by
  obtain ⟨archive, harchive⟩ : ∃ archive,
      AppendCall.applyAll UstarBuilder.new dirWithFile >>= UstarBuilder.finish = .ok archive :=
    isOk_iff.mp (by decide +kernel)
  obtain ⟨b, hb, hfinish⟩ := bind_eq_ok.mp harchive
  exact ⟨b, archive, hb, hfinish, (ustar_roundTrip.1 dirWithFile b archive hb hfinish).1,
    ustar_roundTrip.2 [97, 47] _ _ typeflagDirectory 0 0o755 0 0 rfl⟩

end ContainerRs
