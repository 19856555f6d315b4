import ContainerRs.ExecEnv
import ContainerRs.ImageIndex
import ContainerRs.StartLedger
import Mathlib.Data.List.Dedup

/-!
# What a Container on macOS is Made of

The service on macOS is told of an image by its descriptor, of the first process by its words and
of volumes by the places of their images. The client finds these out: it looks for the image and
pulls it (`resolve_or_pull_macos`, async_runner.rs), reads the blobs from the descriptor to the
configuration of the image (`resolve_image_config`, image_config.rs), and has each volume created
or looked up (`resolve_volumes`, xpc_client.rs). From these it makes the configuration of the
container (`build_config`, container_cfg.rs).

The JSON library is a parameter, and so are the display of errors, the free ports that the
operating system offers, the name of the architecture and what the file system of the host says
of paths.

## Main results

* `resolveImageConfig_runs`: each blob is read under the digest that the one before it names.
* `resolveVolumes_mounts`: every mount of a volume is given the image of that volume.
-/

namespace ContainerRs

open Outcomes Programs Program RawJson Utf8

/-- What surrounds the runner on macOS. -/
structure MacSurroundings (ν : Type) where
  surroundings : Surroundings
  reader : RawJson ν
  utf8Error : Bytes → Text
  /-- The architecture of the host, as the compiler names it. -/
  arch : Text
  offers : ℕ → Except Text UInt16
  uniqueSuffix : Text
  /-- A text with its control characters escaped, in quotes. -/
  debugText : Text → Text
  displayPath : Bytes → Text
  displayError : Error → Text
  isFile : Bytes → Bool
  isDir : Bytes → Bool
  kernelJson : Bytes → Bytes

/-- The errors of the client are among those of the image. -/
def ImageClientError.toFailure : ImageClientError → ClientFailure
  | imageNotFound image => .imageNotFound image
  | json msg => .json msg
  | other msg => .other msg

/-- A result of a client. -/
def clientResult {α : Type} : Except ClientFailure α → Except Error α
  | .ok a => .ok a
  | .error e => .error (.client e)

/-! ### The configuration of an image -/

/-- The descriptor of an image. -/
structure Descriptor where
  mediaType : Text
  digest : Text
  deriving DecidableEq, Repr

section Reader

variable {ν : Type} (reader : RawJson ν) (utf8Error : Bytes → Text)

/-- A string that must be there; an error with its place. -/
def requiredText (place : Text) (value : Except Text ν) (name : Text) : Except ClientFailure Text :=
  match value.bind fun v => (reader.required v name).bind reader.toText with
  | .ok text => .ok text
  | .error e => .error (.json (place ++ ": ".toList ++ e))

/-- A JSON text. -/
def parseJson (kind : Text) (text : Text) : Except ClientFailure ν :=
  match reader.parse text with
  | .ok parsed => .ok parsed
  | .error e => .error (.json ("invalid ".toList ++ kind ++ " JSON: ".toList ++ e))

/-- A blob that is a JSON text. -/
def parseBlob (kind : Text) (bytes : Bytes) : Except ClientFailure ν :=
  match fromUtf8 bytes with
  | some text => parseJson reader kind text
  | none => .error (.json (kind ++ " is not UTF-8: ".toList ++ utf8Error bytes))

/-- The descriptor in a JSON text. -/
def parseDescriptor (descRaw : Text) : Except ClientFailure Descriptor := do
  let parsed ← parseJson reader "descriptor".toList descRaw
  let mediaType ← requiredText reader "descriptor mediaType".toList (.ok parsed) "mediaType".toList
  let digest ← requiredText reader "descriptor digest".toList (.ok parsed) "digest".toList
  return { mediaType, digest }

/-- The digest of the configuration in a manifest. -/
def configDigestFromManifest (manifestBytes : Bytes) : Except ClientFailure Text := do
  let parsed ← parseBlob reader utf8Error "manifest".toList manifestBytes
  requiredText reader "manifest config.digest".toList (reader.required parsed "config".toList)
    "digest".toList

/-- The strings of a member, if it is an array of strings. -/
def stringArray (value : ν) (key : Text) : Option (List Text) := do
  let arr ← reader.optional value key
  let items ← (reader.toArray arr).toOption
  items.mapM fun v => (reader.toText v).toOption

/-- What the configuration of an image says of its command. -/
def parseImageConfig (configBytes : Bytes) : Except ClientFailure ImageConfig := do
  let parsed ← parseBlob reader utf8Error "image config".toList configBytes
  let config := reader.optional parsed "config".toList
  return {
    entrypoint := config.bind fun c => stringArray reader c "Entrypoint".toList
    cmd := config.bind fun c => stringArray reader c "Cmd".toList }

/-- The kinds of blobs by their media types. -/
inductive BlobKind
  | index
  | manifest
  | config
  deriving DecidableEq, Repr

/-- The kind of blob that a media type stands for. -/
def blobKind (mediaType : Text) : Option BlobKind :=
  if mediaType = "application/vnd.oci.image.index.v1+json".toList ∨
      mediaType = "application/vnd.docker.distribution.manifest.list.v2+json".toList then
    some .index
  else if mediaType = "application/vnd.oci.image.manifest.v1+json".toList ∨
      mediaType = "application/vnd.docker.distribution.manifest.v2+json".toList then
    some .manifest
  else if mediaType = "application/vnd.oci.image.config.v1+json".toList then some .config
  else none

/-- The digest of the configuration behind a descriptor. -/
def resolveConfigDigest (arch : Text) (desc : Descriptor) (platform : Option Text) :
    Fallible Text :=
  match blobKind desc.mediaType with
  | some .index => do
      let indexBytes ← attempt (ask (.contentGet desc.digest))
      let manifestDigest ← liftExcept (clientResult
        ((selectManifestDigest reader utf8Error arch indexBytes platform).mapError
          ImageClientError.toFailure))
      let manifestBytes ← attempt (ask (.contentGet manifestDigest))
      liftExcept (clientResult (configDigestFromManifest reader utf8Error manifestBytes))
  | some .manifest => do
      let manifestBytes ← attempt (ask (.contentGet desc.digest))
      liftExcept (clientResult (configDigestFromManifest reader utf8Error manifestBytes))
  | some .config => pure desc.digest
  | none => throw (.client (.other ("unsupported image descriptor mediaType: ".toList ++
      desc.mediaType)))

/-- The configuration of the image behind a descriptor. -/
def resolveImageConfig (arch : Text) (descRaw : Text) (platform : Option Text) :
    Fallible ImageConfig := do
  let desc ← liftExcept (clientResult (parseDescriptor reader descRaw))
  let configDigest ← resolveConfigDigest reader utf8Error arch desc platform
  let configBytes ← attempt (ask (.contentGet configDigest))
  liftExcept (clientResult (parseImageConfig reader utf8Error configBytes))

end Reader

/-! ### The image -/

/-- Look for an image. For amd64 it is pulled first, as what is there may be of another
platform; for others it is pulled if it is not there. -/
def resolveOrPullMacos (descriptor arch : Text) (resolvePlatform : Option Text) :
    Fallible Text :=
  if resolvePlatform = some "linux/amd64".toList then do
    attempt (ask (.pullImage descriptor (some arch)))
    attempt (ask (.resolveImageDescriptor descriptor))
  else ExceptT.mk do
    match ← ask (.resolveImageDescriptor descriptor) with
    | .ok descRaw => return .ok descRaw
    | .error (.client (.imageNotFound _)) =>
        match ← ask (.pullImage descriptor (resolvePlatform.map fun _ => arch)) with
        | .error e => return .error e
        | .ok () => ask (.resolveImageDescriptor descriptor)
    | .error e => return .error e

/-! ### Volumes -/

/-- The names of the volumes that are mounted, in order, each once. -/
def volumeNames (mounts : List Mount) : List Text :=
  let names := (mounts.filter fun m => m.mountType = .volume).filterMap Mount.source
  (names.mergeSort fun a b => decide (a ≤ b)).dedup

/-- Resolve volumes one after the other. -/
def resolveVolumeNames (displayError : Error → Text) :
    List Text → SortedMap Text VolumeResolution → Fallible (SortedMap Text VolumeResolution)
  | [], resolutions => pure resolutions
  | name :: names, resolutions => ExceptT.mk do
      match ← ask (.resolveVolume name) with
      | .error e =>
          return .error (.other ("failed to resolve volume '".toList ++ name ++ "': ".toList ++
            displayError e))
      | .ok resolution =>
          (resolveVolumeNames displayError names (resolutions.insert name resolution)).run

/-- Resolve the volumes of a request. -/
def resolveVolumes (displayError : Error → Text) (mounts : List Mount) :
    Fallible (SortedMap Text VolumeResolution) :=
  resolveVolumeNames displayError (volumeNames mounts) .empty

/-! ### The configuration of a container -/

/-- The configuration of a container; `offers` are the free ports of the operating system. -/
def buildConfig (offers : ℕ → Except Text UInt16) (req : StartRequest) (id descRaw : Text)
    (imageConfig : ImageConfig) (volumeResolutions : SortedMap Text VolumeResolution) :
    Except Text ContainerCfg := do
  let request := req.request
  let (initExe, initArgs) ← imageConfig.effectiveCommand request.entrypoint request.cmd
  let ports ← buildConfigPorts offers request
  let (architecture, rosetta, _) := normalizePlatform req.platform
  let user ← parseUser request.user
  return {
    id
    hostname := (request.hostname.orElse fun _ => req.containerName).getD id
    imageRef := normalizeImageReference request.descriptor
    imageDescriptor := descRaw
    mounts := request.mounts.map (mountCfg volumeResolutions)
    ports
    initExe
    initArgs
    initEnv := buildConfigEnv request
    workingDirectory := request.workingDir.getD "/".toList
    useInit := request.init
    capAdd := if request.privileged then ["ALL".toList] else request.capAdd.getD []
    capDrop := request.capDrop.getD []
    shmSize := request.shmSize
    user
    network := request.network.getD "default".toList
    architecture
    rosetta
    ssh := req.ssh
    readOnly := request.readonlyRootfs
    labels := request.labels
    cpus := 4
    terminal := request.openStdin.getD false
    maskedPaths := req.maskedPaths
    readonlyPaths := req.readonlyPaths }

/-- The configuration is that of the given container. -/
theorem id_of_buildConfig {offers : ℕ → Except Text UInt16} {req : StartRequest} {id descRaw : Text}
    {imageConfig : ImageConfig} {resolutions : SortedMap Text VolumeResolution}
    {cfg : ContainerCfg}
    (h : buildConfig offers req id descRaw imageConfig resolutions = .ok cfg) : cfg.id = id := by
  obtain ⟨command, -, h₁⟩ := bind_eq_ok.mp h
  obtain ⟨ports, -, h₂⟩ := bind_eq_ok.mp h₁
  obtain ⟨user, -, h₃⟩ := bind_eq_ok.mp h₂
  rw [← Except.ok.inj h₃]

/-! ### What has been read -/

/-- A result of the client is passed on; only its errors are named anew. -/
theorem clientResult_eq_ok_iff {α : Type} {r : Except ClientFailure α} {a : α} :
    clientResult r = .ok a ↔ r = .ok a := by
  cases r <;> simp [clientResult]

section Chain

variable {ν : Type} (reader : RawJson ν) (utf8Error : Bytes → Text) (arch : Text)
  (platform : Option Text)

/-- The blobs that lead from a descriptor to the digest of the configuration: a manifest, in
front of it an index from which it is chosen, or nothing. -/
inductive ConfigChain (desc : Descriptor) : Trace → Text → Prop
  | index {indexBytes manifestBytes : Bytes} {manifestDigest digest : Text}
      (hkind : blobKind desc.mediaType = some .index)
      (hselect : selectManifestDigest reader utf8Error arch indexBytes platform =
        .ok manifestDigest)
      (hmanifest : configDigestFromManifest reader utf8Error manifestBytes = .ok digest) :
      ConfigChain desc [⟨.contentGet desc.digest, .ok indexBytes⟩,
        ⟨.contentGet manifestDigest, .ok manifestBytes⟩] digest
  | manifest {manifestBytes : Bytes} {digest : Text}
      (hkind : blobKind desc.mediaType = some .manifest)
      (hmanifest : configDigestFromManifest reader utf8Error manifestBytes = .ok digest) :
      ConfigChain desc [⟨.contentGet desc.digest, .ok manifestBytes⟩] digest
  | config (hkind : blobKind desc.mediaType = some .config) : ConfigChain desc [] desc.digest

variable {reader utf8Error arch platform}

/-- **The digest of the configuration** is found exactly by such a chain: one case for
each kind of blob, and none for a media type that is not known. -/
theorem runs_resolveConfigDigest {desc : Descriptor} {tr : Trace} {digest : Text} :
    Runs (resolveConfigDigest reader utf8Error arch desc platform).run tr (.ok digest) ↔
      ConfigChain reader utf8Error arch platform desc tr digest := by
  rw [resolveConfigDigest]
  constructor
  · intro h
    cases hkind : blobKind desc.mediaType with
    | none =>
        rw [hkind] at h
        exact nomatch (runs_pure.mp h).2
    | some kind =>
        rw [hkind] at h
        cases kind with
        | index =>
            obtain ⟨indexBytes, tr₁, rest₁, rfl, hindex, h₁⟩ := runs_ok_bind.mp h
            obtain ⟨manifestDigest, tr₂, rest₂, rfl, hselect, h₂⟩ := runs_ok_bind.mp h₁
            obtain ⟨manifestBytes, tr₃, rest₃, rfl, hmanifest, h₃⟩ := runs_ok_bind.mp h₂
            obtain rfl := runs_request.mp hindex
            obtain ⟨rfl, hchosen⟩ := runs_pure.mp hselect
            obtain rfl := runs_request.mp hmanifest
            obtain ⟨rfl, hdigest⟩ := runs_pure.mp h₃
            exact .index hkind (mapError_eq_ok.mp (clientResult_eq_ok_iff.mp hchosen))
              (clientResult_eq_ok_iff.mp hdigest)
        | manifest =>
            obtain ⟨manifestBytes, tr₁, rest₁, rfl, hmanifest, h₁⟩ := runs_ok_bind.mp h
            obtain rfl := runs_request.mp hmanifest
            obtain ⟨rfl, hdigest⟩ := runs_pure.mp h₁
            exact .manifest hkind (clientResult_eq_ok_iff.mp hdigest)
        | config =>
            obtain ⟨rfl, hdigest⟩ := runs_pure.mp h
            obtain rfl := Except.ok.inj hdigest
            exact .config hkind
  · intro h
    cases h with
    | @index _ _ manifestDigest _ hkind hselect hmanifest =>
        rw [hkind]
        refine runs_ok_bind.mpr ⟨_, [_], [_], rfl, runs_request.mpr rfl, ?_⟩
        refine runs_ok_bind.mpr ⟨manifestDigest, [], [_], rfl, runs_pure.mpr ⟨rfl, ?_⟩, ?_⟩
        · exact clientResult_eq_ok_iff.mpr (mapError_eq_ok.mpr hselect)
        · refine runs_ok_bind.mpr ⟨_, [_], [], rfl, runs_request.mpr rfl, ?_⟩
          exact runs_pure.mpr ⟨rfl, clientResult_eq_ok_iff.mpr hmanifest⟩
    | manifest hkind hmanifest =>
        rw [hkind]
        refine runs_ok_bind.mpr ⟨_, [_], [], rfl, runs_request.mpr rfl, ?_⟩
        exact runs_pure.mpr ⟨rfl, clientResult_eq_ok_iff.mpr hmanifest⟩
    | config hkind =>
        rw [hkind]
        exact .done _

end Chain

/-- **The configuration of an image** is read at the end of a chain of blobs, each of which is
named by the digest in the one before it; a platform is looked for in the index. -/
theorem resolveImageConfig_runs {ν : Type} (reader : RawJson ν) (utf8Error : Bytes → Text)
    (arch descRaw : Text) (platform : Option Text) (tr : Trace) (config : ImageConfig) :
    Runs (resolveImageConfig reader utf8Error arch descRaw platform).run tr (.ok config) ↔
      ∃ desc front digest configBytes, parseDescriptor reader descRaw = .ok desc ∧
        ConfigChain reader utf8Error arch platform desc front digest ∧
        tr = front ++ [⟨.contentGet digest, .ok configBytes⟩] ∧
        parseImageConfig reader utf8Error configBytes = .ok config := by
  rw [resolveImageConfig]
  constructor
  · intro h
    obtain ⟨desc, tr₁, rest₁, rfl, hdesc, h₁⟩ := runs_ok_bind.mp h
    obtain ⟨digest, front, rest₂, rfl, hchain, h₂⟩ := runs_ok_bind.mp h₁
    obtain ⟨configBytes, tr₃, rest₃, rfl, hconfig, h₃⟩ := runs_ok_bind.mp h₂
    obtain ⟨rfl, hparsed⟩ := runs_pure.mp hdesc
    obtain rfl := runs_request.mp hconfig
    obtain ⟨rfl, hresult⟩ := runs_pure.mp h₃
    exact ⟨desc, front, digest, configBytes, clientResult_eq_ok_iff.mp hparsed,
      runs_resolveConfigDigest.mp hchain, rfl, clientResult_eq_ok_iff.mp hresult⟩
  · rintro ⟨desc, front, digest, configBytes, hdesc, hchain, rfl, hconfig⟩
    refine runs_ok_bind.mpr ⟨desc, [], _, rfl, runs_pure.mpr ⟨rfl, ?_⟩, ?_⟩
    · exact clientResult_eq_ok_iff.mpr hdesc
    · refine runs_ok_bind.mpr ⟨digest, front, _, rfl, runs_resolveConfigDigest.mpr hchain, ?_⟩
      refine runs_ok_bind.mpr ⟨configBytes, [_], [], rfl, runs_request.mpr rfl, ?_⟩
      exact runs_pure.mpr ⟨rfl, clientResult_eq_ok_iff.mpr hconfig⟩

/-! ### What the mounts are given -/

/-- The names asked for are those of the volume mounts. -/
theorem mem_volumeNames {mounts : List Mount} {name : Text} :
    name ∈ volumeNames mounts ↔ ∃ m ∈ mounts, m.mountType = .volume ∧ m.source = some name := by
  simp [volumeNames, and_assoc]

/-- No name is asked for twice. -/
theorem nodup_volumeNames (mounts : List Mount) : (volumeNames mounts).Nodup := List.nodup_dedup _

/-- The names are in order, none of them twice. -/
theorem pairwise_volumeNames (mounts : List Mount) : (volumeNames mounts).Pairwise (· < ·) := by
  have hle : (volumeNames mounts).Pairwise (· ≤ ·) := by
    refine List.Pairwise.sublist (List.dedup_sublist _) ?_
    refine (List.pairwise_mergeSort ?_ ?_ _).imp fun hab => of_decide_eq_true hab
    · intro a b c hab hbc
      exact decide_eq_true (le_trans (of_decide_eq_true hab) (of_decide_eq_true hbc))
    · intro a b
      rw [Bool.or_eq_true, decide_eq_true_eq, decide_eq_true_eq]
      exact le_total a b
  exact List.Pairwise.imp₂ (fun _ _ hab hne => lt_of_le_of_ne hab hne) hle
    (nodup_volumeNames mounts)

/-- **The run lemma of the volumes**: one call for each name, in order, and each reply is found
under its name. -/
theorem runs_resolveVolumeNames {displayError : Error → Text} {names : List Text}
    {resolutions resolved : SortedMap Text VolumeResolution} {tr : Trace}
    (hnames : names.Nodup)
    (h : Runs (resolveVolumeNames displayError names resolutions).run tr (.ok resolved)) :
    tr.map Sigma.fst = names.map .resolveVolume ∧
      (∀ name ∈ names, ∃ resolution,
        (⟨.resolveVolume name, .ok resolution⟩ : Event Call Reply) ∈ tr ∧
        resolved.get? name = some resolution) ∧
      ∀ name ∉ names, resolved.get? name = resolutions.get? name := by
  induction names generalizing resolutions tr with
  | nil =>
      obtain ⟨rfl, hresolved⟩ := runs_pure.mp h
      obtain rfl := Except.ok.inj hresolved
      exact ⟨rfl, nofun, fun _ _ => rfl⟩
  | cons name names ih =>
      obtain ⟨hname, hnodup⟩ := List.nodup_cons.mp hnames
      obtain ⟨reply, rest, rfl, hrest⟩ := runs_request_bind.mp h
      cases reply with
      | error e => exact nomatch (runs_pure.mp hrest).2
      | ok resolution =>
          obtain ⟨hops, hfound, hkept⟩ := ih hnodup hrest
          refine ⟨by rw [List.map_cons, hops]; rfl, ?_, ?_⟩
          · intro other hother
            rcases List.mem_cons.mp hother with rfl | hmem
            · refine ⟨resolution, List.mem_cons_self, ?_⟩
              rw [hkept _ hname, SortedMap.get?_insert, if_pos rfl]
            · obtain ⟨found, hevent, hget⟩ := hfound other hmem
              exact ⟨found, List.mem_cons_of_mem _ hevent, hget⟩
          · intro other hother
            rw [List.mem_cons, not_or] at hother
            rw [hkept _ hother.2, SortedMap.get?_insert, if_neg hother.1]

/-- **The mounts of volumes**: each volume of a request is asked for once, in the order of their
names, and every mount of it is told the path and the file system that were the reply. -/
theorem resolveVolumes_mounts (displayError : Error → Text) (mounts : List Mount) (tr : Trace)
    (resolutions : SortedMap Text VolumeResolution)
    (h : Runs (resolveVolumes displayError mounts).run tr (.ok resolutions)) :
    tr.map Sigma.fst = (volumeNames mounts).map .resolveVolume ∧ (tr.map Sigma.fst).Nodup ∧
      (volumeNames mounts).Pairwise (· < ·) ∧
      (∀ name, name ∈ volumeNames mounts ↔
        ∃ m ∈ mounts, m.mountType = .volume ∧ m.source = some name) ∧
      ∀ m ∈ mounts, m.mountType = .volume → ∀ name, m.source = some name →
        ∃ resolution, (⟨.resolveVolume name, .ok resolution⟩ : Event Call Reply) ∈ tr ∧
          (mountCfg resolutions m).volumeName = some name ∧
          (mountCfg resolutions m).source = resolution.source ∧
          (mountCfg resolutions m).volumeFormat = some resolution.format := by
  obtain ⟨hops, hfound, -⟩ := runs_resolveVolumeNames (nodup_volumeNames mounts) h
  refine ⟨hops, ?_, pairwise_volumeNames mounts, fun name => mem_volumeNames, ?_⟩
  · rw [hops]
    exact (nodup_volumeNames mounts).map fun a b hab => Call.resolveVolume.inj hab
  · intro m hm hvolume name hsource
    obtain ⟨resolution, hevent, hget⟩ := hfound name (mem_volumeNames.mpr ⟨m, hm, hvolume, hsource⟩)
    refine ⟨resolution, hevent, ?_⟩
    simp [mountCfg, hvolume, hsource, hget]

/-- The volume "data" at "/d". -/
def dataMount : Mount :=
  ⟨.readWrite, .volume, some "data".toList, some "/d".toList, none⟩

/-- The mount is told the image of the volume. -/
theorem resolveVolumes_mounts_sample :
    ∃ resolutions, (mountCfg resolutions dataMount).source = "/v".toList := by
  have hnames : volumeNames [dataMount] = ["data".toList] := by
    simp [volumeNames, dataMount]
  have hrun : Runs (resolveVolumes (fun _ => []) [dataMount]).run
      [⟨.resolveVolume "data".toList, .ok ⟨"/v".toList, "ext4".toList⟩⟩]
      (.ok (SortedMap.empty.insert "data".toList ⟨"/v".toList, "ext4".toList⟩)) := by
    rw [resolveVolumes, hnames]
    exact .call _ (.done _)
  obtain ⟨-, -, -, -, hmounts⟩ := resolveVolumes_mounts (fun _ => []) [dataMount] _ _ hrun
  obtain ⟨resolution, hevent, -, hsource, -⟩ :=
    hmounts dataMount List.mem_cons_self rfl "data".toList rfl
  refine ⟨_, hsource.trans ?_⟩
  simp only [List.mem_singleton, Sigma.mk.injEq, heq_eq_eq, true_and, Except.ok.injEq] at hevent
  rw [hevent]

end ContainerRs
