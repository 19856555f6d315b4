import ContainerRs.Ports
import ContainerRs.RegistryAuth

/-!
# The Environment of a Command in a Container

A container is created with the variables of its image and of the request, and a command run
in it (`ContainerAsync::exec`, async_container.rs) gets these and its own. On macOS they are
folded from the request once more. On Linux the daemon is asked for the environment of the
container (`container_env`, docker_client.rs), whose texts "KEY=VALUE" are split again. All
four places fold with `fold_env` (core/env.rs).

The order of names is that of their characters, which is also that of their bytes.

## Main results

* `filterMap_splitOnce_foldEnv`: the variables are read back from the texts.
* `foldEnv_entries`: folding in two steps is folding once.
* `containerEnv_eq`: the environment that the daemon shows is read.
* `execEnv_agrees`: one rule on both platforms.
-/

namespace ContainerRs

open Json RawJson

/-! ### The environments -/

/-- The variables of the image, then those set by the request. -/
def envVars (imageEnv requestEnv : List (Text × Text)) : List (Text × Text) :=
  imageEnv ++ requestEnv

/-- The environment with which a container is created on macOS. -/
def buildConfigEnv (req : ContainerRequest) : List Text := foldEnv req.envVars []

/-- The environment of a container in the document that the daemon shows; empty if it is not
there. -/
def containerEnv {ν : Type} (reader : RawJson ν) (parsed : ν) : List Text :=
  match (reader.optional parsed "Config".toList).bind fun config =>
      reader.optional config "Env".toList with
  | none => []
  | some env =>
      match reader.toArray env with
      | .error _ => []
      | .ok items => items.filterMap fun item => (reader.toText item).toOption

/-- The environment of a command on macOS, in a container with these variables. -/
def macExecEnv (containerVars execVars : List (Text × Text)) : List Text :=
  foldEnv containerVars execVars

/-- The environment of a command on Linux, in a container with this one: nothing, which leaves the
container's own, unless the command sets variables. -/
def linuxExecEnv (env : List Text) (execVars : List (Text × Text)) : List Text :=
  if execVars = [] then [] else foldEnv (env.filterMap (splitOnce '=')) execVars

/-! ### Texts of variables -/

/-- A variable as text. -/
def keyValue (entry : Text × Text) : Text := entry.1 ++ '=' :: entry.2

/-- The name in such a text. -/
def variableName (text : Text) : Text := text.takeWhile (· ≠ '=')

/-- Folding the variables together is building the map of them, in which the last writer
of a name wins. -/
theorem foldEnv_eq (base overrides : List (Text × Text)) :
    foldEnv base overrides = (SortedMap.ofList (base ++ overrides)).entries.map keyValue := rfl

/-- The name of a variable is read back from its text, the first equals sign being the one
behind it. -/
theorem variableName_keyValue {entry : Text × Text} (h : '=' ∉ entry.1) :
    variableName (keyValue entry) = entry.1 :=
  Fields.takeWhile_ne_append h entry.2

/-- Texts of variables are split into the variables. -/
theorem filterMap_splitOnce_keyValue {entries : List (Text × Text)}
    (h : ∀ entry ∈ entries, '=' ∉ entry.1) :
    (entries.map keyValue).filterMap (splitOnce '=') = entries := by
  induction entries with
  | nil => rfl
  | cons entry entries ih =>
      rw [List.forall_mem_cons] at h
      have hentry : splitOnce '=' (keyValue entry) = some entry := splitOnce_append h.1 entry.2
      rw [List.map_cons, List.filterMap_cons_some hentry, ih h.2]

/-- The names in a folded environment are names of its variables. -/
theorem not_mem_of_ofList {entries : List (Text × Text)} (h : ∀ entry ∈ entries, '=' ∉ entry.1) :
    ∀ entry ∈ (SortedMap.ofList entries).entries, '=' ∉ entry.1 :=
  fun _ hentry => h _ (SortedMap.mem_entries_ofList.mp hentry).mem

/-- **The variables are read back** from a folded environment. -/
theorem filterMap_splitOnce_foldEnv {base : List (Text × Text)}
    (h : ∀ entry ∈ base, '=' ∉ entry.1) :
    (foldEnv base []).filterMap (splitOnce '=') = (SortedMap.ofList base).entries := by
  rw [foldEnv_eq, List.append_nil]
  exact filterMap_splitOnce_keyValue (not_mem_of_ofList h)

/-- **Folding in two steps** is folding once. -/
theorem foldEnv_entries (base overrides : List (Text × Text)) :
    foldEnv (SortedMap.ofList base).entries overrides = foldEnv base overrides := by
  rw [foldEnv_eq, foldEnv_eq, SortedMap.ofList_append, SortedMap.ofList_append,
    SortedMap.ofList_entries]

/-- The texts whose names are not overridden are those from before. The overrides change
the map under their own names alone, and its order is that of the names. -/
theorem filter_foldEnv {base overrides : List (Text × Text)}
    (h : ∀ entry ∈ base ++ overrides, '=' ∉ entry.1) :
    (foldEnv base overrides).filter (fun text => variableName text ∉ overrides.map Prod.fst) =
      (foldEnv base []).filter fun text => variableName text ∉ overrides.map Prod.fst := by
  have hfilter : ∀ entries : List (Text × Text), (∀ entry ∈ entries, '=' ∉ entry.1) →
      (entries.map keyValue).filter (fun text => variableName text ∉ overrides.map Prod.fst) =
        (entries.filter fun entry => entry.1 ∉ overrides.map Prod.fst).map keyValue := by
    intro entries hentries
    rw [List.filter_map]
    refine congrArg (List.map keyValue) (List.filter_congr fun entry hentry => ?_)
    rw [Function.comp_apply, variableName_keyValue (hentries entry hentry)]
  have hbase := (List.forall_mem_append.mp h).1
  rw [foldEnv_eq, foldEnv_eq, List.append_nil, hfilter _ (not_mem_of_ofList h),
    hfilter _ (not_mem_of_ofList hbase), SortedMap.ofList_append]
  have hoverridden : ∀ entry ∈ overrides, decide (entry.1 ∉ overrides.map Prod.fst) = false :=
    fun entry hentry => decide_eq_false (not_not_intro (List.mem_map_of_mem hentry))
  exact congrArg (List.map keyValue) (SortedMap.filter_foldl_insert
    (p := fun name => decide (name ∉ overrides.map Prod.fst)) _ hoverridden)

/-! ### What the daemon shows -/

/-- The document shows this environment of the container. -/
def InspectsEnv (doc : Json) (env : List Text) : Prop :=
  ∃ config, doc.HasMember "Config" config ∧ config.HasMember "Env" (stringsDocument env)

section

variable {ν : Type} {reader : RawJson ν} {represents : ν → Json → Prop}

/-- The strings of an array are read. By induction on the strings. -/
theorem filterMap_toText (hreader : reader.Faithful represents) {elements : List ν}
    {texts : List Text} (h : List.Forall₂ represents elements (texts.map .string)) :
    (elements.filterMap fun element => (reader.toText element).toOption) = texts := by
  induction texts generalizing elements with
  | nil =>
      rw [List.map_nil, List.forall₂_nil_right_iff] at h
      rw [h, List.filterMap_nil]
  | cons text texts ih =>
      rw [List.map_cons, List.forall₂_cons_right_iff] at h
      obtain ⟨element, elements, htext, htexts, rfl⟩ := h
      rw [List.filterMap_cons, hreader.toText htext, ih htexts]
      rfl

/-- **The environment that the daemon shows is read.** -/
theorem containerEnv_eq (hreader : reader.Faithful represents) {parsed : ν} {doc : Json}
    {env : List Text} (hparsed : represents parsed doc) (hdoc : InspectsEnv doc env) :
    containerEnv reader parsed = env := by
  obtain ⟨config, hconfig, henv⟩ := hdoc
  obtain ⟨v, hv, hvconfig⟩ := hreader.member hparsed hconfig
  obtain ⟨w, hw, hwenv⟩ := hreader.member hvconfig henv
  obtain ⟨elements, harray, helements⟩ := hreader.toArray hwenv
  rw [containerEnv, hv, Option.bind_some, hw]
  dsimp only
  rw [harray]
  exact filterMap_toText hreader helements

end

/-! ### One rule on both platforms -/

/-- The environment of a configuration is that of the request, folded without
overrides. -/
theorem env_of_buildContainerConfig {req : ContainerRequest} {config : ContainerConfig}
    (h : buildContainerConfig req = some config) : config.env = foldEnv req.envVars [] := by
  rw [buildContainerConfig] at h
  split at h
  · exact absurd h (by simp)
  · obtain rfl := Option.some.inj h
    rfl

/-- **The environment of a command follows one rule.** On Linux the environment is read
from the document of the container, to which the configuration has been written; on macOS
it is folded from the request. In both cases what is there before the overrides is the
folded environment of the request. -/
theorem execEnv_agrees {ν : Type} {reader : RawJson ν} {represents : ν → Json → Prop}
    (hreader : reader.Faithful represents) {req : ContainerRequest}
    {imageEnv requestEnv execVars : List (Text × Text)}
    (hreq : req.envVars = envVars imageEnv requestEnv)
    (hnames : ∀ entry ∈ imageEnv ++ requestEnv ++ execVars, '=' ∉ entry.1)
    (hexec : execVars ≠ []) {config : ContainerConfig}
    (hconfig : buildContainerConfig req = some config) {parsed : ν} {doc : Json}
    (hparsed : represents parsed doc) (hdoc : InspectsEnv doc config.env) :
    linuxExecEnv (containerEnv reader parsed) execVars = macExecEnv req.envVars execVars ∧
      config.env = buildConfigEnv req ∧
      (∃ entries : List (Text × Text),
        linuxExecEnv (containerEnv reader parsed) execVars = entries.map keyValue ∧
        (entries.Pairwise fun entry later => entry.1 < later.1) ∧
        ∀ entry, entry ∈ entries ↔
          SortedMap.IsLast entry (imageEnv ++ requestEnv ++ execVars)) ∧
      (linuxExecEnv (containerEnv reader parsed) execVars).filter
          (fun text => variableName text ∉ execVars.map Prod.fst) =
        config.env.filter fun text => variableName text ∉ execVars.map Prod.fst := by
  have henv := env_of_buildContainerConfig hconfig
  have hbase := (List.forall_mem_append.mp hnames).1
  rw [envVars] at hreq
  have hsame : linuxExecEnv (containerEnv reader parsed) execVars =
      macExecEnv req.envVars execVars := by
    rw [linuxExecEnv, if_neg hexec, containerEnv_eq hreader hparsed hdoc, henv, hreq,
      filterMap_splitOnce_foldEnv hbase, foldEnv_entries, macExecEnv]
  refine ⟨hsame, henv, ?_, ?_⟩
  · rw [hsame, macExecEnv, foldEnv_eq, hreq]
    exact ⟨_, rfl, SortedMap.sorted _, fun entry => SortedMap.mem_entries_ofList⟩
  · rw [hsame, henv, macExecEnv, hreq]
    exact filter_foldEnv hnames

/-- The variables of an image. -/
def imageSample : List (Text × Text) :=
  [("PATH".toList, "/bin".toList), ("OPTS".toList, "a=1".toList)]

/-- A request that sets one of them again. -/
def envRequest : ContainerRequest :=
  { webRequest with envVars := envVars imageSample [("OPTS".toList, "b=2".toList)] }

/-- What the daemon shows of its container. -/
def envDocument : Json :=
  .object [("Config".toList, .object [("Env".toList,
    stringsDocument ["OPTS=b=2".toList, "PATH=/bin".toList])])]

/-- A command that sets the path twice. -/
def execSample : List (Text × Text) :=
  [("PATH".toList, "/sbin".toList), ("PATH".toList, "/usr=".toList)]

/-- The sample document reports the sample environment. -/
theorem inspectsEnv_envDocument :
    InspectsEnv envDocument ["OPTS=b=2".toList, "PATH=/bin".toList] :=
  ⟨_, ⟨_, rfl, List.nodup_singleton _, List.mem_singleton_self _⟩,
    ⟨_, rfl, List.nodup_singleton _, List.mem_singleton_self _⟩⟩

/-- The last writer of each variable is seen by the command. The document has the
environment of the request, and the command overrides one variable of it. -/
theorem execEnv_agrees_sample :
    linuxExecEnv (containerEnv Json.reader envDocument) execSample =
        macExecEnv envRequest.envVars execSample ∧
      linuxExecEnv (containerEnv Json.reader envDocument) execSample =
        ["OPTS=b=2".toList, "PATH=/usr=".toList] := by
  have hreq : envRequest.envVars = envVars imageSample [("OPTS".toList, "b=2".toList)] := rfl
  have hnames : ∀ entry ∈ imageSample ++ [("OPTS".toList, "b=2".toList)] ++ execSample,
      '=' ∉ entry.1 := by decide
  have hconfig : buildContainerConfig envRequest = some _ := rfl
  have hdoc : InspectsEnv envDocument (foldEnv envRequest.envVars []) := by
    have henv : foldEnv envRequest.envVars [] = ["OPTS=b=2".toList, "PATH=/bin".toList] := by
      decide
    rw [henv]
    exact inspectsEnv_envDocument
  have hagree := execEnv_agrees faithful_reader hreq hnames (List.cons_ne_nil _ _) hconfig rfl hdoc
  refine ⟨hagree.1, ?_⟩
  rw [hagree.1]
  decide

end ContainerRs
