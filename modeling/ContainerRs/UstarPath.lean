import ContainerRs.DockerTar
import ContainerRs.Lib.ByteOffsets
import ContainerRs.Lib.Json

/-!
# Splitting Paths for ustar Headers

A path of more than 99 bytes is put into a header as a name and a prefix, cut at a slash
(`split_ustar_path`, docker_tar.rs). The code scans the path from the front and keeps the
split with the longest name.

The path is a string and the code looks at its bytes: the slices of the string are those of
`Lib.ByteOffsets`, `none` where the program would panic.

## Main results

* `foldl_betterSplit`: the scan keeps the first slash that leaves parts of legal lengths.
* `splitUstarPath_eq_ok_iff`: a path is split at the slash with the longest legal name.
* `checkedSplitUstarPath_eq`: no index and no slice fails, and the parts are those of
  `splitUstarPath`.
* `splitUstarPath_exact`: which paths can be split, and how.
-/

namespace ContainerRs

open ByteOffsets Checked Ustar Utf8

/-! ### Slices -/

/-- The better of the best split so far and the one at index `i`, with the index and the
difference checked. -/
def checkedBetterSplit (bytes : Bytes) (best : Option (ℕ × ℕ)) (i : ℕ) :
    Option (Option (ℕ × ℕ)) := do
  let b ← bytes[i]?
  if b ≠ slash then some best
  else do
    let nameLen ← checkedSub bytes.length (i + 1)
    if splitFits nameLen i then
      match best with
      | none => some (some (nameLen, i))
      | some (bestName, _) => if nameLen > bestName then some (some (nameLen, i)) else some best
    else some best

/-- Where the search for a split ends, with the difference checked. -/
def checkedSplitSearchEnd (bytes : Bytes) : Option ℕ :=
  if bytes.getLast? = some slash then checkedSub bytes.length 1 else some bytes.length

/-- The two parts of a string around the byte behind the prefix; the length of the name is
asserted. -/
def checkedParts (path : Text) (nameLen preLen : ℕ) : Option (Text × Text) := do
  let pre ← ByteOffsets.sliceTo path preLen
  let name ← ByteOffsets.sliceFrom path (preLen + 1)
  if byteLength name = nameLen then some (name, pre) else none

/-- Split a string into name and prefix; none where the program would panic. -/
def checkedSplitUstarPath (path : Text) : Option (Except CopyToContainerError (Text × Text)) :=
  if utf8 path = [] then some (.error (pathErr "tar entry path must not be empty"))
  else if (utf8 path).contains 0 then
    some (.error (pathErr "tar entry path must not contain NUL"))
  else if (utf8 path).length ≤ nameMax then some (.ok (path, []))
  else do
    let searchEnd ← checkedSplitSearchEnd (utf8 path)
    if searchEnd = 0 then some (.error (pathErr "tar entry path must not be empty"))
    else do
      let best ← (List.range searchEnd).foldlM (checkedBetterSplit (utf8 path)) none
      match best with
      | none => some (.error (pathErr ("tar entry path too long to fit ustar name/prefix: " ++
          toString (utf8 path).length ++ " bytes")))
      | some (nameLen, preLen) => (checkedParts path nameLen preLen).map .ok

/-! ### The scan -/

/-- A slash at this index leaves parts that fit their fields. -/
def LegalAt (path : Bytes) (i : ℕ) : Prop :=
  path[i]? = some slash ∧ splitFits (path.length - (i + 1)) i

instance (path : Bytes) (i : ℕ) : Decidable (LegalAt path i) := inferInstanceAs (Decidable (_ ∧ _))

/-- The first slash that is legal is taken. -/
theorem betterSplit_of_legalAt {path : Bytes} {i : ℕ} (h : LegalAt path i) :
    betterSplit path none i = some (path.length - (i + 1), i) := by
  rw [betterSplit, if_pos h.1]
  exact if_pos h.2

/-- A slash that is not legal changes nothing. -/
theorem betterSplit_of_not_legalAt {path : Bytes} {i : ℕ} (h : ¬ LegalAt path i)
    (best : Option (ℕ × ℕ)) : betterSplit path best i = best := by
  rw [betterSplit]
  split
  · next hslash => exact if_neg fun hfits => h ⟨hslash, hfits⟩
  · rfl

/-- A later slash leaves a shorter name. -/
theorem betterSplit_of_lt {path : Bytes} {i j : ℕ} (h : i < j) :
    betterSplit path (some (path.length - (i + 1), i)) j = some (path.length - (i + 1), i) := by
  rw [betterSplit]
  split
  · dsimp only
    split
    · exact if_neg (by omega)
    · rfl
  · rfl

/-- **The scan keeps the first legal slash.** By induction on the number of slashes looked
at: once one is kept, no later one is better. -/
theorem foldl_betterSplit (path : Bytes) (n : ℕ) :
    (List.range n).foldl (betterSplit path) none =
      ((List.range n).find? fun i => LegalAt path i).map fun i => (path.length - (i + 1), i) := by
  induction n with
  | zero => rfl
  | succ n ih =>
      rw [List.range_succ, List.foldl_append, List.foldl_cons, List.foldl_nil, ih,
        List.find?_append]
      cases hfind : (List.range n).find? fun i => LegalAt path i with
      | some i =>
          have hlt : i < n := List.mem_range.mp (List.mem_of_find?_eq_some hfind)
          exact betterSplit_of_lt hlt
      | none =>
          by_cases hlegal : LegalAt path n
          · rw [Option.map_none, betterSplit_of_legalAt hlegal]
            simp [hlegal]
          · rw [Option.map_none, betterSplit_of_not_legalAt hlegal]
            simp [hlegal]

/-! ### Legal splits -/

/-- The path is cut at a slash into parts that fit their fields. -/
structure LegalSplit (path pre name : Bytes) : Prop where
  join : path = pre ++ slash :: name
  one_le_name : 1 ≤ name.length
  name_le : name.length ≤ nameMax
  one_le_pre : 1 ≤ pre.length
  pre_le : pre.length ≤ prefixLen

/-- The parts around a legal slash are a legal split. -/
theorem LegalAt.legalSplit {path : Bytes} {i : ℕ} (h : LegalAt path i) :
    LegalSplit path (path.take i) (path.drop (i + 1)) := by
  obtain ⟨hslash, hfits⟩ := h
  obtain ⟨hlt, hget⟩ := List.getElem?_eq_some_iff.mp hslash
  rw [splitFits, decide_eq_true_eq] at hfits
  obtain ⟨⟨hname₁, hname⟩, hpre₁, hpre⟩ := hfits
  have htake : (path.take i).length = i := List.length_take_of_le (Nat.le_of_lt hlt)
  refine ⟨?_, ?_, ?_, ?_, ?_⟩
  · rw [← hget, List.cons_getElem_drop_succ, List.take_append_drop]
  · rwa [List.length_drop]
  · rwa [List.length_drop]
  · rwa [htake]
  · rwa [htake]

/-- A legal split is one at a legal slash. -/
theorem LegalSplit.legalAt {path pre name : Bytes} (h : LegalSplit path pre name) :
    LegalAt path pre.length ∧ path.length - (pre.length + 1) = name.length := by
  obtain ⟨rfl, hname₁, hname, hpre₁, hpre⟩ := h
  have hlength : (pre ++ slash :: name).length - (pre.length + 1) = name.length := by
    rw [List.length_append, List.length_cons]
    omega
  refine ⟨⟨?_, ?_⟩, hlength⟩
  · rw [List.getElem?_append_right (Nat.le_refl _), Nat.sub_self]
    rfl
  · rw [splitFits, hlength]
    exact decide_eq_true ⟨⟨hname₁, hname⟩, hpre₁, hpre⟩

/-- The slash at the end of a directory would leave no name. -/
theorem LegalAt.lt_splitSearchEnd {path : Bytes} {i : ℕ} (h : LegalAt path i) :
    i < splitSearchEnd path := by
  obtain ⟨hslash, hfits⟩ := h
  obtain ⟨hlt, -⟩ := List.getElem?_eq_some_iff.mp hslash
  rw [splitFits, decide_eq_true_eq] at hfits
  rw [splitSearchEnd]
  split <;> omega

/-- The first legal slash. -/
def firstLegal (path : Bytes) : Option ℕ :=
  (List.range (splitSearchEnd path)).find? fun i => LegalAt path i

/-- The first legal slash: it is legal, and none before it is. -/
theorem firstLegal_eq_some_iff {path : Bytes} {i : ℕ} :
    firstLegal path = some i ↔ LegalAt path i ∧ ∀ j < i, ¬ LegalAt path j := by
  rw [firstLegal, List.find?_range_eq_some, decide_eq_true_eq]
  constructor
  · rintro ⟨hlegal, -, hfirst⟩
    exact ⟨hlegal, fun j hj => by simpa using hfirst j hj⟩
  · rintro ⟨hlegal, hfirst⟩
    exact ⟨hlegal, List.mem_range.mpr hlegal.lt_splitSearchEnd, fun j hj => by
      simpa using hfirst j hj⟩

/-- **The first legal slash** is the one with the longest name behind it. An earlier slash
leaves more behind it, so among the legal ones the first wins. -/
theorem firstLegal_eq_some_length_iff {path pre name : Bytes} (h : LegalSplit path pre name) :
    firstLegal path = some pre.length ↔
      ∀ pre' name', LegalSplit path pre' name' → name'.length ≤ name.length := by
  rw [firstLegal_eq_some_iff]
  constructor
  · rintro ⟨-, hfirst⟩ pre' name' h'
    have hle : pre.length ≤ pre'.length :=
      Nat.le_of_not_lt fun hlt => hfirst _ hlt h'.legalAt.1
    rw [← h.legalAt.2, ← h'.legalAt.2]
    omega
  · intro hlongest
    refine ⟨h.legalAt.1, fun j hj hlegal => ?_⟩
    have hname := hlongest _ _ hlegal.legalSplit
    have hlength := congrArg List.length h.join
    rw [List.length_drop, ← h.legalAt.2] at hname
    rw [List.length_append, List.length_cons] at hlength
    omega

/-- The splitting of a path that does not fit the name field. The scan finds the first
legal slash or none. -/
theorem splitUstarPath_of_long {path : Bytes} (hnul : 0 ∉ path) (hlong : nameMax < path.length) :
    splitUstarPath path =
      match firstLegal path with
      | none => .error (pathErr ("tar entry path too long to fit ustar name/prefix: " ++
          toString path.length ++ " bytes"))
      | some i => .ok (path.drop (i + 1), path.take i) := by
  have hne : path ≠ [] := List.ne_nil_of_length_pos (Nat.zero_lt_of_lt hlong)
  have hcontains : ¬ path.contains 0 = true := by rwa [List.contains_iff_mem]
  have hend : splitSearchEnd path ≠ 0 := by
    rw [splitSearchEnd]
    rw [nameMax] at hlong
    split <;> omega
  rw [splitUstarPath, if_neg hne, if_neg hcontains, if_neg (Nat.not_le.mpr hlong), if_neg hend,
    foldl_betterSplit, ← firstLegal]
  cases firstLegal path <;> rfl

/-- **A long path is split at the slash with the longest legal name.** The scan keeps the
first legal slash, and that is the one with the longest name. -/
theorem splitUstarPath_eq_ok_iff_of_long {path name pre : Bytes} (hnul : 0 ∉ path)
    (hlong : nameMax < path.length) :
    splitUstarPath path = .ok (name, pre) ↔
      LegalSplit path pre name ∧
        ∀ pre' name', LegalSplit path pre' name' → name'.length ≤ name.length := by
  rw [splitUstarPath_of_long hnul hlong]
  constructor
  · intro h
    cases hfirst : firstLegal path with
    | none => exact absurd h (by simp [hfirst])
    | some i =>
        rw [hfirst] at h
        obtain ⟨rfl, rfl⟩ := Prod.mk.inj (Except.ok.inj h)
        have hlegal := (firstLegal_eq_some_iff.mp hfirst).1
        have hlt := (List.getElem?_eq_some_iff.mp hlegal.1).1
        refine ⟨hlegal.legalSplit, (firstLegal_eq_some_length_iff hlegal.legalSplit).mp ?_⟩
        rwa [List.length_take_of_le (Nat.le_of_lt hlt)]
  · rintro ⟨hsplit, hlongest⟩
    rw [(firstLegal_eq_some_length_iff hsplit).mpr hlongest]
    dsimp only
    rw [hsplit.join, List.take_left, ← List.drop_drop, List.drop_left, List.drop_one,
      List.tail_cons]

/-- **Which bytes are split**, and how. A path that is empty or has a NUL is refused; one
that fits is taken whole; the others are split at a slash. -/
theorem splitUstarPath_eq_ok_iff {path name pre : Bytes} :
    splitUstarPath path = .ok (name, pre) ↔
      path ≠ [] ∧ 0 ∉ path ∧
        (path.length ≤ nameMax ∧ name = path ∧ pre = [] ∨
          nameMax < path.length ∧ LegalSplit path pre name ∧
            ∀ pre' name', LegalSplit path pre' name' → name'.length ≤ name.length) := by
  by_cases hne : path = []
  · rw [splitUstarPath, if_pos hne]
    exact iff_of_false (by simp) fun h => h.1 hne
  by_cases hnul : 0 ∈ path
  · rw [splitUstarPath, if_neg hne, if_pos (List.contains_iff_mem.mpr hnul)]
    exact iff_of_false (by simp) fun h => h.2.1 hnul
  rcases Nat.lt_or_ge nameMax path.length with hlong | hshort
  · rw [splitUstarPath_eq_ok_iff_of_long hnul hlong]
    constructor
    · exact fun h => ⟨hne, hnul, .inr ⟨hlong, h⟩⟩
    · rintro ⟨-, -, ⟨hle, -⟩ | ⟨-, h⟩⟩
      · exact absurd hlong (Nat.not_lt.mpr hle)
      · exact h
  · have hcontains : ¬ path.contains 0 = true := by rwa [List.contains_iff_mem]
    rw [splitUstarPath, if_neg hne, if_neg hcontains, if_pos hshort]
    constructor
    · intro h
      obtain ⟨rfl, rfl⟩ := Prod.mk.inj (Except.ok.inj h)
      exact ⟨hne, hnul, .inl ⟨hshort, rfl, rfl⟩⟩
    · rintro ⟨-, -, ⟨-, rfl, rfl⟩ | ⟨hlong, -⟩⟩
      · rfl
      · exact absurd hlong (Nat.not_lt.mpr hshort)

/-! ### Slices and indices stay within the path -/

/-- Within the path no index is out of bounds, so an iteration is carried out. It reads
the one byte, and the lengths that it subtracts are no longer than the path. -/
theorem checkedBetterSplit_eq {bytes : Bytes} {i : ℕ} (hi : i < bytes.length)
    (best : Option (ℕ × ℕ)) :
    checkedBetterSplit bytes best i = some (betterSplit bytes best i) := by
  have hget : bytes[i]? = some bytes[i] := List.getElem?_eq_getElem hi
  have hsub : checkedSub bytes.length (i + 1) = some (bytes.length - (i + 1)) := if_pos hi
  rw [checkedBetterSplit, betterSplit, hget, hsub]
  dsimp only [Option.bind_eq_bind, Option.bind_some]
  by_cases hslash : bytes[i] = slash
  · rw [if_neg (not_not_intro hslash), if_pos (congrArg some hslash)]
    split
    · cases best with
      | none => rfl
      | some split =>
          dsimp only
          split <;> rfl
    · rfl
  · rw [if_pos hslash, if_neg fun h => hslash (Option.some.inj h)]

/-- **The search never leaves the path**, by induction on the number of iterations. -/
theorem foldlM_checkedBetterSplit {bytes : Bytes} {n : ℕ} (hn : n ≤ bytes.length) :
    (List.range n).foldlM (checkedBetterSplit bytes) none =
      some ((List.range n).foldl (betterSplit bytes) none) := by
  induction n with
  | zero => rfl
  | succ n ih =>
      rw [List.range_succ, List.foldlM_append, ih (Nat.le_of_succ_le hn), List.foldl_append]
      rw [Option.bind_eq_bind, Option.bind_some, List.foldlM_cons, checkedBetterSplit_eq hn]
      rfl

/-- The end of the search is within the path, whether or not it ends in a slash. -/
theorem checkedSplitSearchEnd_eq (bytes : Bytes) :
    checkedSplitSearchEnd bytes = some (splitSearchEnd bytes) := by
  rw [checkedSplitSearchEnd, splitSearchEnd]
  split
  · next hlast =>
      have hne : bytes ≠ [] := fun h => by rw [h] at hlast; exact nomatch hlast
      exact if_pos (List.length_pos_iff.mpr hne)
  · rfl

/-- The search ends in the path. -/
theorem splitSearchEnd_le (bytes : Bytes) : splitSearchEnd bytes ≤ bytes.length := by
  rw [splitSearchEnd]
  split <;> omega

/-- **The slices around a slash lie on character boundaries.** A slash is one byte in
UTF-8 and is part of no other character, so the text is cut there as the bytes are. -/
theorem checkedParts_of_slash {path : Text} {i : ℕ} (h : (utf8 path)[i]? = some slash) :
    ∃ name pre, checkedParts path ((utf8 path).length - (i + 1)) i = some (name, pre) ∧
      path = pre ++ '/' :: name ∧ utf8 name = (utf8 path).drop (i + 1) ∧
      utf8 pre = (utf8 path).take i := by
  obtain ⟨hlt, hget⟩ := List.getElem?_eq_some_iff.mp h
  have hbytes : utf8 path = (utf8 path).take i ++ slash :: (utf8 path).drop (i + 1) := by
    rw [← hget, List.cons_getElem_drop_succ, List.take_append_drop]
  obtain ⟨pre, c, name, rfl, hc, hpre, hname⟩ := exists_char_of_utf8 hbytes (by decide)
  obtain rfl : c = '/' := Char.toNat_inj.mp hc
  refine ⟨name, pre, ?_, rfl, hname, hpre⟩
  have hi : byteLength pre = i := by
    rw [byteLength, hpre, List.length_take_of_le (Nat.le_of_lt hlt)]
  have hbehind : byteLength (pre ++ ['/']) = i + 1 := by
    rw [byteLength_append, hi]
    rfl
  have hlength : byteLength name = (utf8 (pre ++ '/' :: name)).length - (i + 1) := by
    rw [byteLength, hname, List.length_drop]
  have hto : ByteOffsets.sliceTo (pre ++ '/' :: name) i = some pre := by
    rw [← hi]
    exact sliceTo_append pre ('/' :: name)
  have hfrom : ByteOffsets.sliceFrom (pre ++ '/' :: name) (i + 1) = some name := by
    rw [← hbehind, List.append_cons]
    exact sliceFrom_append (pre ++ ['/']) name
  rw [checkedParts, hto, hfrom]
  exact if_pos hlength

/-- **No index and no slice fails**, and the parts are those of the bytes. The cases are
those of the code; in the last one the index is that of a slash. -/
theorem checkedSplitUstarPath_eq (path : Text) :
    (∃ e, checkedSplitUstarPath path = some (.error e) ∧ splitUstarPath (utf8 path) = .error e) ∨
      ∃ name pre, checkedSplitUstarPath path = some (.ok (name, pre)) ∧
        splitUstarPath (utf8 path) = .ok (utf8 name, utf8 pre) ∧
        (path = name ∧ pre = [] ∨ path = pre ++ '/' :: name) := by
  rw [checkedSplitUstarPath, splitUstarPath]
  split
  · exact .inl ⟨_, rfl, rfl⟩
  split
  · exact .inl ⟨_, rfl, rfl⟩
  split
  · exact .inr ⟨path, [], rfl, rfl, .inl ⟨rfl, rfl⟩⟩
  rw [checkedSplitSearchEnd_eq, Option.bind_eq_bind, Option.bind_some]
  split
  · exact .inl ⟨_, rfl, rfl⟩
  rw [foldlM_checkedBetterSplit (splitSearchEnd_le _), Option.bind_eq_bind, Option.bind_some,
    foldl_betterSplit, ← firstLegal]
  cases hfirst : firstLegal (utf8 path) with
  | none => exact .inl ⟨_, rfl, rfl⟩
  | some i =>
      have hlegal := (firstLegal_eq_some_iff.mp hfirst).1
      obtain ⟨name, pre, hparts, hpath, hname, hpre⟩ := checkedParts_of_slash hlegal.1
      refine .inr ⟨name, pre, congrArg (Option.map Except.ok) hparts, ?_, .inr hpath⟩
      rw [hname, hpre]
      rfl

/-! ### Splitting a path -/

/-- The longest legal name of a split path, and the join of its parts. The join comes from
the slices, the rest from what is split. -/
theorem splitUstarPath_ok {path name pre : Text}
    (h : splitUstarPath (utf8 path) = .ok (utf8 name, utf8 pre))
    (hjoin : path = name ∧ pre = [] ∨ path = pre ++ '/' :: name) :
    path = (if pre = [] then name else pre ++ '/' :: name) ∧
      (pre = [] ↔ byteLength path ≤ nameMax) ∧
      (pre ≠ [] → LegalSplit (utf8 path) (utf8 pre) (utf8 name)) ∧
      ∀ pre' name', LegalSplit (utf8 path) pre' name' → name'.length ≤ byteLength name := by
  obtain ⟨-, -, ⟨hshort, hname, hpre⟩ | ⟨hlong, hsplit, hlongest⟩⟩ :=
    splitUstarPath_eq_ok_iff.mp h
  · obtain rfl : pre = [] := by
      by_contra hne
      exact utf8_ne_nil hne hpre
    have hlength : byteLength name = byteLength path := congrArg List.length hname
    refine ⟨?_, iff_of_true rfl hshort, fun hne => absurd rfl hne, fun pre' name' h' => ?_⟩
    · rw [if_pos rfl]
      rcases hjoin with ⟨hpath, -⟩ | hpath
      · exact hpath
      · have hpos := byteLength_singleton_pos '/'
        rw [hpath, List.nil_append, byteLength_cons] at hlength
        omega
    · rw [hlength, byteLength, ← h'.legalAt.2]
      exact Nat.sub_le _ _
  · have hne : pre ≠ [] := by
      rintro rfl
      exact absurd hsplit.one_le_pre (by simp)
    refine ⟨?_, iff_of_false hne (Nat.not_le.mpr hlong), fun _ => hsplit, hlongest⟩
    rw [if_neg hne]
    exact hjoin.resolve_left fun h => hne h.2

/-- A slash at the end of a path stays at the end of its name. -/
theorem getLast?_name {path name pre : Text}
    (hpath : path = if pre = [] then name else pre ++ '/' :: name)
    (hname : pre ≠ [] → name ≠ []) (hlast : path.getLast? = some '/') :
    name.getLast? = some '/' := by
  split at hpath
  · rwa [hpath] at hlast
  · next hne =>
      obtain ⟨c, rest, rfl⟩ := List.exists_cons_of_ne_nil (hname hne)
      rw [hpath, List.getLast?_append, List.getLast?_cons_cons] at hlast
      simpa using hlast

/-- A path with a legal split is split. -/
theorem exists_splitUstarPath_eq_ok {path pre name : Bytes} (hnul : 0 ∉ path)
    (hlong : nameMax < path.length) (h : LegalSplit path pre name) :
    ∃ parts, splitUstarPath path = .ok parts := by
  rw [splitUstarPath_of_long hnul hlong]
  cases hfirst : firstLegal path with
  | some i => exact ⟨_, rfl⟩
  | none =>
      rw [firstLegal, List.find?_eq_none] at hfirst
      have hmem := List.mem_range.mpr h.legalAt.1.lt_splitSearchEnd
      exact absurd (decide_eq_true h.legalAt.1) (hfirst _ hmem)

/-- Which paths can be split. Those that fit, and those with a legal slash. -/
theorem isOk_splitUstarPath_iff (path : Bytes) :
    (splitUstarPath path).isOk ↔
      path ≠ [] ∧ 0 ∉ path ∧
        (path.length ≤ nameMax ∨ ∃ pre name, LegalSplit path pre name) := by
  rw [Outcomes.isOk_iff]
  constructor
  · rintro ⟨⟨name, pre⟩, hsplit⟩
    obtain ⟨hne, hnul, hshort | hlong⟩ := splitUstarPath_eq_ok_iff.mp hsplit
    · exact ⟨hne, hnul, .inl hshort.1⟩
    · exact ⟨hne, hnul, .inr ⟨_, _, hlong.2.1⟩⟩
  · rintro ⟨hne, hnul, hparts⟩
    rcases Nat.lt_or_ge nameMax path.length with hlong | hshort
    · obtain ⟨pre, name, h⟩ := hparts.resolve_left (Nat.not_le.mpr hlong)
      exact exists_splitUstarPath_eq_ok hnul hlong h
    · exact ⟨_, splitUstarPath_eq_ok_iff.mpr ⟨hne, hnul, .inl ⟨hshort, rfl, rfl⟩⟩⟩

/-- **Splitting a path for a header.** No index and no slice fails; the rest is said of
the bytes. -/
theorem splitUstarPath_exact (path : Text) :
    ∃ result, checkedSplitUstarPath path = some result ∧
      (result.isOk ↔
        path ≠ [] ∧ 0 ∉ utf8 path ∧
          (byteLength path ≤ nameMax ∨ ∃ pre name, LegalSplit (utf8 path) pre name)) ∧
      ∀ name pre, result = .ok (name, pre) →
        path = (if pre = [] then name else pre ++ '/' :: name) ∧
          (pre = [] ↔ byteLength path ≤ nameMax) ∧
          (pre ≠ [] → LegalSplit (utf8 path) (utf8 pre) (utf8 name)) ∧
          (∀ pre' name', LegalSplit (utf8 path) pre' name' → name'.length ≤ byteLength name) ∧
          (path.getLast? = some '/' → name.getLast? = some '/') ∧
          byteLength name ≤ nameMax ∧ byteLength pre ≤ prefixLen := by
  have hne : utf8 path ≠ [] ↔ path ≠ [] :=
    ⟨fun h hpath => h (congrArg utf8 hpath), utf8_ne_nil⟩
  have hok := isOk_splitUstarPath_iff (utf8 path)
  rw [hne] at hok
  rcases checkedSplitUstarPath_eq path with ⟨e, hchecked, hsplit⟩ |
      ⟨name, pre, hchecked, hsplit, hjoin⟩
  · rw [hsplit] at hok
    exact ⟨_, hchecked, hok, fun _ _ h => nomatch h⟩
  · rw [hsplit] at hok
    refine ⟨_, hchecked, hok, ?_⟩
    rintro _ _ ⟨⟩
    obtain ⟨hpath, hshort, hlegal, hlongest⟩ := splitUstarPath_ok hsplit hjoin
    obtain ⟨hnameLe, hpreLe, -⟩ := splitUstarPath_spec hsplit
    refine ⟨hpath, hshort, hlegal, hlongest, getLast?_name hpath fun hpre hname => ?_, hnameLe,
      hpreLe⟩
    rw [hname] at hlegal
    exact absurd (hlegal hpre).one_le_name (by simp)

end ContainerRs
