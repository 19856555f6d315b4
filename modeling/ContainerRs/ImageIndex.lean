import ContainerRs.ImageReference
import ContainerRs.Lib.Priority

/-!
# Choosing a Manifest

An image for several platforms is an index of manifests. `select_manifest_digest`
(image_config.rs) chooses one: the first of the platform asked for, and without one the first
of the best class there is, never an attestation. What an entry says of its platform may be
missing in part or altogether.

The JSON library is a parameter, and so are the architecture of the host as the compiler names
it and the text of an error for bytes that are no UTF-8.

## Main results

* `selectFromManifests_none`: the passes over the list are a choice by classes.
* `manifestDigest_eq_ok_iff`: the digest of an entry is the string in its member.
* `selectManifestDigest_policy`: which manifest is chosen, with and without a platform.
-/

namespace ContainerRs

open Priority Utf8

/-! ### Platforms -/

/-- A platform as architecture, use of Rosetta and platform to resolve. -/
def normalizePlatform (platform : Option Text) : Text × Bool × Option Text :=
  if platform = some "linux/amd64".toList ∨ platform = some "amd64".toList then
    ("amd64".toList, true, some "linux/amd64".toList)
  else if platform = some "linux/arm64".toList ∨ platform = some "arm64".toList then
    ("arm64".toList, false, some "linux/arm64".toList)
  else ("arm64".toList, false, none)

/-- The architecture of the host, from the name that the compiler has for it. -/
def hostArchitecture (arch : Text) : Text :=
  if arch = "aarch64".toList then "arm64".toList
  else if arch = "x86_64".toList then "amd64".toList
  else "arm64".toList

/-- The operating system and the architecture as written; no architecture without a platform. -/
def platformOsAndRawArch : Option Text → Text × Text
  | none => ("linux".toList, [])
  | some p =>
      match p.splitOn '/' with
      | first :: arch :: _ => (first, arch)
      | [first] => ("linux".toList, first)
      | [] => ("linux".toList, [])

/-- The operating system and the architecture that a manifest must have. -/
def targetOsAndArchitecture (arch : Text) (platform : Option Text) : Text × Text :=
  let (os, rawArch) := platformOsAndRawArch platform
  let architecture :=
    if rawArch = [] then hostArchitecture arch
    else if rawArch = "arm64".toList ∨ rawArch = "aarch64".toList then "arm64".toList
    else if rawArch = "amd64".toList ∨ rawArch = "x86_64".toList then "amd64".toList
    else hostArchitecture arch
  (os, architecture)

section Reader

variable {ν : Type} (reader : RawJson ν)

/-! ### Entries of an index -/

/-- The operating system and the architecture of an entry that has both. -/
def manifestPlatformOsArch (item : ν) : Option (Text × Text) := do
  let platform ← reader.optional item "platform".toList
  let os ← reader.optionalText platform "os".toList
  let arch ← reader.optionalText platform "architecture".toList
  some (os, arch)

/-- The operating system of an entry. -/
def manifestPlatformOs (item : ν) : Option Text := do
  let platform ← reader.optional item "platform".toList
  reader.optionalText platform "os".toList

/-- The architecture of an entry. -/
def manifestPlatformArchitecture (item : ν) : Option Text := do
  let platform ← reader.optional item "platform".toList
  reader.optionalText platform "architecture".toList

/-- The entry is an attestation, which has no architecture of its own. -/
def isAttestationManifest (item : ν) : Bool :=
  manifestPlatformArchitecture reader item = some "unknown".toList

/-- The digest of an entry. -/
def manifestDigest (item : ν) : Except ImageClientError Text :=
  match reader.required item "digest".toList with
  | .error e => .error (.json ("manifest digest: ".toList ++ e))
  | .ok member =>
      match reader.toText member with
      | .error e => .error (.json ("manifest digest: ".toList ++ e))
      | .ok digest => .ok digest

/-! ### The choice -/

/-- The digest of the manifest for a platform, or of the best one without a platform. -/
def selectFromManifests (arch : Text) (manifests : List ν) (platform : Option Text) :
    Except ImageClientError Text :=
  let (targetOs, targetArch) := targetOsAndArchitecture arch platform
  match manifests.find? fun item =>
      manifestPlatformOsArch reader item = some (targetOs, targetArch) with
  | some item => manifestDigest reader item
  | none =>
      match platform with
      | some p => .error (.other ("no matching manifest for ".toList ++ p))
      | none =>
          match ["arm64".toList, "amd64".toList].findSome? fun preferred =>
              manifests.find? fun item =>
                manifestPlatformOsArch reader item = some (targetOs, preferred) with
          | some item => manifestDigest reader item
          | none =>
              match manifests.find? fun item =>
                  manifestPlatformOs reader item = some targetOs &&
                    !isAttestationManifest reader item with
              | some item => manifestDigest reader item
              | none =>
                  match manifests.find? fun item => !isAttestationManifest reader item with
                  | some item => manifestDigest reader item
                  | none => .error (.json "index has no valid manifests".toList)

/-- The digest that is chosen from an index. -/
def selectManifestDigest (utf8Error : Bytes → Text) (arch : Text) (indexBytes : Bytes)
    (platform : Option Text) : Except ImageClientError Text :=
  match fromUtf8 indexBytes with
  | none => .error (.json ("index is not UTF-8: ".toList ++ utf8Error indexBytes))
  | some text =>
      match reader.parse text with
      | .error e => .error (.json ("invalid index JSON: ".toList ++ e))
      | .ok parsed =>
          match reader.required parsed "manifests".toList with
          | .error e => .error (.json ("index manifests: ".toList ++ e))
          | .ok member =>
              match reader.toArray member with
              | .error e => .error (.json ("index manifests: ".toList ++ e))
              | .ok manifests => selectFromManifests reader arch manifests platform

/-! ### What an entry says -/

/-- The entry says that it is for an operating system and an architecture. -/
def isFor (os architecture : Text) (item : ν) : Bool :=
  manifestPlatformOs reader item = some os ∧
    manifestPlatformArchitecture reader item = some architecture

/-- The classes of entries for a host, in the order of preference. An attestation is an entry of
the architecture "unknown". -/
def preferenceClasses (arch : Text) : List (ν → Bool) :=
  [isFor reader "linux".toList (hostArchitecture arch),
    isFor reader "linux".toList "arm64".toList, isFor reader "linux".toList "amd64".toList,
    fun item => manifestPlatformOs reader item = some "linux".toList ∧
      manifestPlatformArchitecture reader item ≠ some "unknown".toList,
    fun item => manifestPlatformArchitecture reader item ≠ some "unknown".toList]

variable {reader}

/-- Both parts of the platform are there if each of them is. -/
theorem manifestPlatformOsArch_eq_some_iff {item : ν} {os architecture : Text} :
    manifestPlatformOsArch reader item = some (os, architecture) ↔
      isFor reader os architecture item := by
  rw [isFor, decide_eq_true_eq, manifestPlatformOsArch, manifestPlatformOs,
    manifestPlatformArchitecture]
  cases reader.optional item "platform".toList with
  | none => simp
  | some platform => simp [Option.bind_eq_some_iff]

/-- To look for a pair of system and architecture is to look for a manifest of that
platform. -/
theorem find?_manifestPlatformOsArch (manifests : List ν) (os architecture : Text) :
    (manifests.find? fun item => manifestPlatformOsArch reader item = some (os, architecture)) =
      manifests.find? (isFor reader os architecture) := by
  congr 1
  funext item
  rw [Bool.eq_iff_iff, decide_eq_true_eq]
  exact manifestPlatformOsArch_eq_some_iff

/-- The last two passes look for entries that are no attestations. -/
theorem not_isAttestationManifest_eq (item : ν) :
    (!isAttestationManifest reader item) =
      decide (manifestPlatformArchitecture reader item ≠ some "unknown".toList) := by
  rw [isAttestationManifest, ← decide_not]

/-- **The passes over the list** without a platform are a choice by classes. Each pass
looks for the first entry of its class and is made only when the passes before it have
found nothing. -/
theorem selectFromManifests_none (arch : Text) (manifests : List ν) :
    selectFromManifests reader arch manifests none =
      (choose (preferenceClasses reader arch) manifests).elim
        (.error (.json "index has no valid manifests".toList)) (manifestDigest reader) := by
  have htarget : targetOsAndArchitecture arch none =
      ("linux".toList, hostArchitecture arch) := rfl
  simp only [selectFromManifests, htarget, find?_manifestPlatformOsArch, choose,
    preferenceClasses, List.findSome?_cons, List.findSome?_nil, not_isAttestationManifest_eq,
    ← Bool.decide_and]
  cases manifests.find? (isFor reader "linux".toList (hostArchitecture arch)) with
  | some item => rfl
  | none =>
      cases manifests.find? (isFor reader "linux".toList "arm64".toList) with
      | some item => rfl
      | none =>
          cases manifests.find? (isFor reader "linux".toList "amd64".toList) with
          | some item => rfl
          | none =>
              cases manifests.find? fun item =>
                  manifestPlatformOs reader item = some "linux".toList ∧
                    manifestPlatformArchitecture reader item ≠ some "unknown".toList with
              | some item => rfl
              | none =>
                  cases manifests.find? fun item =>
                    manifestPlatformArchitecture reader item ≠ some "unknown".toList <;> rfl

/-- **With a platform** there is one pass. -/
theorem selectFromManifests_some (arch : Text) (manifests : List ν) {p os architecture : Text}
    (htarget : targetOsAndArchitecture arch (some p) = (os, architecture)) :
    selectFromManifests reader arch manifests (some p) =
      (manifests.find? (isFor reader os architecture)).elim
        (.error (.other ("no matching manifest for ".toList ++ p))) (manifestDigest reader) := by
  simp only [selectFromManifests, htarget, find?_manifestPlatformOsArch]
  cases manifests.find? (isFor reader os architecture) <;> rfl

/-- The string in the member of an entry for its digest. -/
def digestOf (reader : RawJson ν) (item : ν) : Option Text :=
  reader.optionalText item "digest".toList

/-- **The digest of an entry** is the string in its member. -/
theorem manifestDigest_eq_ok_iff {item : ν} {digest : Text} :
    manifestDigest reader item = .ok digest ↔ digestOf reader item = some digest := by
  rw [manifestDigest, digestOf, RawJson.optionalText, RawJson.optional, RawJson.required]
  cases reader.toMember item "digest".toList with
  | error e => simp [bind, Except.bind]
  | ok member =>
      cases member with
      | none => simp [bind, Except.bind]
      | some member =>
          cases htext : reader.toText member <;>
            simp [bind, Except.bind, htext, Except.toOption]

section Answer

variable {chosen : Option ν} {e : ImageClientError}

/-- The answer for an entry is its digest. -/
theorem answer_eq_ok_iff {digest : Text} :
    chosen.elim (.error e) (manifestDigest reader) = .ok digest ↔
      ∃ item, chosen = some item ∧ digestOf reader item = some digest := by
  cases chosen with
  | none => simp
  | some item => simp [manifestDigest_eq_ok_iff]

/-- There is an error without an entry, or without a digest in it. One case for each of
the two, and one for an entry that has a digest. -/
theorem answer_eq_error_iff :
    (∃ e', chosen.elim (.error e) (manifestDigest reader) = .error e') ↔
      chosen = none ∨ ∃ item, chosen = some item ∧ digestOf reader item = none := by
  cases chosen with
  | none => simp
  | some item =>
      simp only [Option.elim_some, reduceCtorEq, false_or, Option.some.injEq, exists_eq_left']
      cases hdigest : manifestDigest reader item with
      | error e =>
          refine iff_of_true ⟨e, rfl⟩ (Option.eq_none_iff_forall_ne_some.mpr ?_)
          intro digest h
          rw [manifestDigest_eq_ok_iff.mpr h] at hdigest
          exact absurd hdigest (by simp)
      | ok digest =>
          rw [manifestDigest_eq_ok_iff.mp hdigest]
          simp

end Answer

/-! ### The policy -/

/-- What is left of a platform to resolve: "linux" and one of two architectures. -/
theorem normalizePlatform_target {platform : Option Text} {p : Text}
    (h : (normalizePlatform platform).2.2 = some p) (arch : Text) :
    ∃ os architecture, p = os ++ '/' :: architecture ∧ '/' ∉ os ∧ '/' ∉ architecture ∧
      targetOsAndArchitecture arch (some p) = (os, architecture) := by
  rw [normalizePlatform] at h
  split at h
  · obtain rfl := Option.some.inj h
    exact ⟨"linux".toList, "amd64".toList, by decide, by decide, by decide,
      rfl⟩
  split at h
  · obtain rfl := Option.some.inj h
    exact ⟨"linux".toList, "arm64".toList, by decide, by decide, by decide,
      rfl⟩
  · exact absurd h (by simp)

/-- No class holds an attestation: the first three are of an architecture that is another one
than "unknown", and the others leave it out. -/
theorem manifestPlatformArchitecture_ne_unknown {arch : Text} {c : ν → Bool} {item : ν}
    (hc : c ∈ preferenceClasses reader arch) (hitem : c item) :
    manifestPlatformArchitecture reader item ≠ some "unknown".toList := by
  have hfor : ∀ {os architecture : Text}, isFor reader os architecture item →
      architecture ≠ "unknown".toList →
        manifestPlatformArchitecture reader item ≠ some "unknown".toList := by
    intro os architecture h hne
    rw [isFor, decide_eq_true_eq] at h
    rw [h.2, ne_eq, Option.some.injEq]
    exact hne
  have hhost : hostArchitecture arch ≠ "unknown".toList := by
    rw [hostArchitecture]
    split
    · decide
    · split <;> decide
  simp only [preferenceClasses, List.mem_cons, List.not_mem_nil, or_false] at hc
  rcases hc with rfl | rfl | rfl | rfl | rfl
  · exact hfor hitem hhost
  · exact hfor hitem (by decide)
  · exact hfor hitem (by decide)
  · exact (of_decide_eq_true hitem).2
  · exact of_decide_eq_true hitem

end Reader

/-- The bytes are an index with these entries. -/
def HoldsManifests {ν : Type} (reader : RawJson ν) (indexBytes : Bytes) (manifests : List ν) :
    Prop :=
  ∃ text parsed member, fromUtf8 indexBytes = some text ∧ reader.parse text = .ok parsed ∧
    reader.required parsed "manifests".toList = .ok member ∧
      reader.toArray member = .ok manifests

/-- **The policy for manifests.** With a platform the answer is the digest of the first entry
of its operating system and architecture, and there is an error if no entry is. Without one it
is that of the first entry in the first class that is not empty, which is no attestation, and
there is an error exactly if all classes are empty or the entry has no digest. -/
theorem selectManifestDigest_policy {ν : Type} (reader : RawJson ν) (utf8Error : Bytes → Text)
    (arch : Text) {indexBytes : Bytes} {manifests : List ν}
    (hindex : HoldsManifests reader indexBytes manifests) :
    (∀ platform p, (normalizePlatform platform).2.2 = some p →
      ∃ os architecture, p = os ++ '/' :: architecture ∧ '/' ∉ os ∧ '/' ∉ architecture ∧
        (∀ digest, selectManifestDigest reader utf8Error arch indexBytes (some p) = .ok digest ↔
          ∃ item, IsFirst (isFor reader os architecture) manifests item ∧
            digestOf reader item = some digest) ∧
        ((∀ item ∈ manifests, ¬ isFor reader os architecture item) →
          ∃ e, selectManifestDigest reader utf8Error arch indexBytes (some p) = .error e)) ∧
      (∀ digest, selectManifestDigest reader utf8Error arch indexBytes none = .ok digest ↔
        ∃ item, IsChoice (preferenceClasses reader arch) manifests item ∧
          digestOf reader item = some digest) ∧
      (∀ item, IsChoice (preferenceClasses reader arch) manifests item →
        manifestPlatformArchitecture reader item ≠ some "unknown".toList) ∧
      ((∃ e, selectManifestDigest reader utf8Error arch indexBytes none = .error e) ↔
        (∀ c ∈ preferenceClasses reader arch, ∀ item ∈ manifests, ¬ c item) ∨
          ∃ item, IsChoice (preferenceClasses reader arch) manifests item ∧
            digestOf reader item = none) := by
  obtain ⟨text, parsed, member, htext, hparse, hmember, harray⟩ := hindex
  have hselect : ∀ platform, selectManifestDigest reader utf8Error arch indexBytes platform =
      selectFromManifests reader arch manifests platform := by
    intro platform
    simp only [selectManifestDigest, htext, hparse, hmember, harray]
  simp only [hselect]
  refine ⟨?_, ?_, ?_, ?_⟩
  · intro platform p hp
    obtain ⟨os, architecture, hsplit, hos, harch, htarget⟩ := normalizePlatform_target hp arch
    refine ⟨os, architecture, hsplit, hos, harch, ?_, ?_⟩
    · intro digest
      rw [selectFromManifests_some arch manifests htarget, answer_eq_ok_iff]
      simp only [find?_eq_some_iff]
    · intro hnone
      rw [selectFromManifests_some arch manifests htarget, answer_eq_error_iff]
      exact .inl (List.find?_eq_none.mpr hnone)
  · intro digest
    rw [selectFromManifests_none, answer_eq_ok_iff]
    simp only [choose_eq_some_iff]
  · intro item hitem
    obtain ⟨-, c, hc, hmem⟩ := hitem.mem
    exact manifestPlatformArchitecture_ne_unknown hc hmem
  · rw [selectFromManifests_none, answer_eq_error_iff, choose_eq_none_iff]
    simp only [choose_eq_some_iff]

/-- An entry as JSON text: one member of its platform, and its digest. -/
def entryText (key value digest : String) : Text :=
  '{' :: Json.separated
    [escapeJson "platform".toList ++ ':' ::
      ('{' :: Json.separated [escapeJson key.toList ++ ':' :: escapeJson value.toList] ++ ['}']),
      escapeJson "digest".toList ++ ':' :: escapeJson digest.toList] ++ ['}']

/-- The entry that the text denotes. -/
def entryDocument (key value digest : String) : Json :=
  .object [("platform".toList, .object [(key.toList, .string value.toList)]),
    ("digest".toList, .string digest.toList)]

/-- The text of an entry of the sample index denotes its document. -/
theorem denotes_entryText (key value digest : String) :
    Json.Denotes (entryText key value digest) (entryDocument key value digest) := by
  have hplatform := Json.denotes_object
    (.cons (denotesMember_escapeJson key.toList (denotes_escapeJson value.toList)) .nil)
  exact Json.denotes_object (.cons (denotesMember_escapeJson "platform".toList hplatform)
    (.cons (denotesMember_escapeJson "digest".toList (denotes_escapeJson digest.toList)) .nil))

/-- An index of an attestation and an entry for linux. -/
def softIndex : Text :=
  '{' :: Json.separated [escapeJson "manifests".toList ++ ':' ::
    ('[' :: Json.separated [entryText "architecture" "unknown" "sha256:a",
      entryText "os" "linux" "sha256:b"] ++ [']'])] ++ ['}']

/-- The entries of the index. -/
def softEntries : List Json :=
  [entryDocument "architecture" "unknown" "sha256:a", entryDocument "os" "linux" "sha256:b"]

/-- The sample index holds the sample entries, in this order. -/
theorem holdsManifests_softIndex :
    HoldsManifests Json.reader (Utf8.utf8 softIndex) softEntries := by
  have hentries : Json.Denotes _ (.array softEntries) := Json.denotes_array
    (.cons (denotes_entryText "architecture" "unknown" "sha256:a")
      (.cons (denotes_entryText "os" "linux" "sha256:b") .nil))
  have hindex : Json.Denotes softIndex (.object [("manifests".toList, .array softEntries)]) :=
    Json.denotes_object (.cons (denotesMember_escapeJson "manifests".toList hentries) .nil)
  exact ⟨softIndex, _, .array softEntries, fromUtf8_utf8 _, Json.parse_reader hindex, rfl, rfl⟩

/-- The entry for linux is chosen without a platform, and there is none for linux/amd64. -/
theorem selectManifestDigest_policy_soft :
    selectManifestDigest Json.reader (fun _ => []) "x86_64".toList (Utf8.utf8 softIndex) none =
        .ok "sha256:b".toList ∧
      ∃ e, selectManifestDigest Json.reader (fun _ => []) "x86_64".toList (Utf8.utf8 softIndex)
        (some "linux/amd64".toList) = .error e := by
  obtain ⟨hsome, hnone, -, -⟩ := selectManifestDigest_policy Json.reader (fun _ => [])
    "x86_64".toList holdsManifests_softIndex
  constructor
  · refine (hnone _).mpr ⟨entryDocument "os" "linux" "sha256:b", ?_, by decide⟩
    exact choose_eq_some_iff.mp rfl
  · obtain ⟨os, architecture, hsplit, -, -, -, herror⟩ :=
      hsome (some "linux/amd64".toList) "linux/amd64".toList (by decide)
    have hos : manifestPlatformOs Json.reader
        (entryDocument "architecture" "unknown" "sha256:a") = none := rfl
    have harch : manifestPlatformArchitecture Json.reader
        (entryDocument "os" "linux" "sha256:b") = none := rfl
    refine herror ?_
    simp [softEntries, isFor, hos, harch]

end ContainerRs
