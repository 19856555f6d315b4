import ContainerRs.CreateContainer
import ContainerRs.Lib.RawJson

/-!
# Ports of a Container on Linux

The ports of a request travel through four representations: the mappings and the exposed
ports of the request (`build_container_config`, async_runner.rs), the keys "80/tcp" of the
create request (`build_port_bindings`, `build_exposed_ports`), the document that the daemon
shows of the running container, and the table read from it (`parse_ports`, docker_client.rs).

The JSON library that reads the document is a parameter.

## Main results

* `rejectDuplicateMappedPorts_eq_ok_iff`: no container port is mapped twice.
* `parseU16_naturalText`: a port number is read back from its digits.
* `parsePortKey_key`: a port is read back from its key.
* `parsePorts_spec`: the table read from a document with one binding for each port.
* `linuxPorts_lossless`: every port of the request arrives in the table, with its host port.
-/

namespace ContainerRs

open Json Outcomes

/-! ### Tables of ports -/

namespace ContainerPort

/-- The place of a port in the order: by protocol, then by number. -/
def rank : ContainerPort → ℕ
  | tcp port => port.toNat
  | udp port => 65536 + port.toNat
  | sctp port => 131072 + port.toNat

/-- Different ports have different places: the protocols are too far apart for their
numbers to meet. -/
theorem rank_injective : Function.Injective rank := by
  intro port port' h
  cases port <;> cases port' <;> simp only [rank] at h
  case tcp.tcp p p' => exact congrArg tcp (UInt16.toNat_inj.mp h)
  case udp.udp p p' => exact congrArg udp (UInt16.toNat_inj.mp (by omega))
  case sctp.sctp p p' => exact congrArg sctp (UInt16.toNat_inj.mp (by omega))
  all_goals
    rename_i p p'
    have := p.toNat_lt
    have := p'.toNat_lt
    omega

instance instLinearOrder : LinearOrder ContainerPort := LinearOrder.lift' rank rank_injective

end ContainerPort

/-- The ports of the host at which a running container is reached. -/
structure Ports where
  ipv4Mapping : SortedMap ContainerPort UInt16
  ipv6Mapping : SortedMap ContainerPort UInt16

namespace Ports

/-- No ports. -/
def empty : Ports := ⟨.empty, .empty⟩

/-- Add a port reached over IPv4. -/
def addMapping (ports : Ports) (containerPort : ContainerPort) (hostPort : UInt16) : Ports :=
  { ports with ipv4Mapping := ports.ipv4Mapping.insert containerPort hostPort }

/-- Add a port reached over IPv6. -/
def addIpv6Mapping (ports : Ports) (containerPort : ContainerPort) (hostPort : UInt16) : Ports :=
  { ports with ipv6Mapping := ports.ipv6Mapping.insert containerPort hostPort }

/-- The host port for a port of the container over IPv4. -/
def mapToHostPortIpv4 (ports : Ports) (containerPort : ContainerPort) : Option UInt16 :=
  ports.ipv4Mapping.get? containerPort

/-- The host port for a port of the container over IPv6. -/
def mapToHostPortIpv6 (ports : Ports) (containerPort : ContainerPort) : Option UInt16 :=
  ports.ipv6Mapping.get? containerPort

end Ports

/-! ### From the request to the configuration -/

/-- Record a mapping; an error (its text) if the container port has one already. -/
def insertMappedPort (seen : SortedMap ContainerPort UInt16) (p : PortMapping) :
    Except Text (SortedMap ContainerPort UInt16) :=
  match seen.get? p.containerPort with
  | some previous =>
      .error ("duplicate container port mapping: container port ".toList ++ p.containerPort.key ++
        " is mapped to both host ports ".toList ++ naturalText previous.toNat ++
        " and ".toList ++ naturalText p.hostPort.toNat)
  | none => .ok (seen.insert p.containerPort p.hostPort)

/-- An error if a container port is mapped twice. -/
def rejectDuplicateMappedPorts (ports : List PortMapping) : Except Text Unit := do
  let _ ← ports.foldlM insertMappedPort .empty
  .ok ()

/-- Environment variables as "KEY=VALUE", each once: the last one counts. -/
def foldEnv (base overrides : List (Text × Text)) : List Text :=
  (SortedMap.ofList (base ++ overrides)).entries.map fun entry => entry.1 ++ '=' :: entry.2

/-- A request, as far as the configuration is made from it. -/
structure ContainerRequest where
  descriptor : Text
  entrypoint : Option Text
  cmd : List Text
  envVars : List (Text × Text)
  ports : Option (List PortMapping)
  exposePorts : List ContainerPort
  mounts : List Mount
  labels : SortedMap Text Text
  privileged : Bool
  workingDir : Option Text
  user : Option Text
  init : Bool
  healthCheck : Option Healthcheck
  capAdd : Option (List Text)
  capDrop : Option (List Text)
  shmSize : Option UInt64
  readonlyRootfs : Bool
  hostname : Option Text
  openStdin : Option Bool
  network : Option Text
  hosts : List (Text × Text)

/-- Exposed ports that are not mapped are given a host port by the daemon. -/
def addExposedPorts (ports : List PortMapping) (exposed : List ContainerPort) :
    List PortMapping :=
  exposed.foldl (fun ports e =>
    if ports.any fun p => p.containerPort = e then ports
    else ports ++ [{ hostPort := 0, containerPort := e }]) ports

/-- The configuration for a request; none if the `expect` in it panics. -/
def buildContainerConfig (req : ContainerRequest) : Option ContainerConfig :=
  match req.ports.elim (.ok ()) rejectDuplicateMappedPorts with
  | .error _ => none
  | .ok () =>
      some
        { image := req.descriptor
          entrypoint := req.entrypoint.map fun e => [e]
          cmd := req.cmd
          env := foldEnv req.envVars []
          ports := addExposedPorts (req.ports.getD []) req.exposePorts
          mounts := req.mounts
          labels := req.labels
          privileged := req.privileged
          workingDir := req.workingDir
          user := req.user
          init := req.init
          healthCheck := req.healthCheck
          capAdd := req.capAdd.getD []
          capDrop := req.capDrop.getD []
          shmSize := req.shmSize
          readonlyRootfs := req.readonlyRootfs
          hostname := req.hostname
          openStdin := req.openStdin
          network := req.network
          extraHosts := req.hosts.map fun host => host.1 ++ ':' :: host.2 }

/-! ### From the daemon's document to the table -/

/-- Put a digit behind a number of 16 bits. -/
def pushDigit (n : ℕ) (c : Char) : Option ℕ :=
  if c.isDigit ∧ 10 * n + (c.toNat - 48) < 65536 then some (10 * n + (c.toNat - 48)) else none

/-- A number of 16 bits: digits, perhaps behind a plus sign. -/
def parseU16 (s : Text) : Option UInt16 :=
  let digits := if s.head? = some '+' then s.tail else s
  if digits = [] then none else (digits.foldlM pushDigit 0).map UInt16.ofNat

/-- A port from its key. -/
def parsePortKey (keyStr : Text) : Option ContainerPort :=
  match keyStr.splitOn '/' with
  | [digits, protocol] => do
      let containerPort ← parseU16 digits
      if protocol = "tcp".toList then some (.tcp containerPort)
      else if protocol = "udp".toList then some (.udp containerPort)
      else if protocol = "sctp".toList then some (.sctp containerPort)
      else none
  | _ => none

section Reader

variable {ν : Type} (reader : RawJson ν)

/-- Add the host port of a binding. -/
def addBinding (containerPort : ContainerPort) (ports : Ports) (binding : ν) : Ports :=
  match (reader.optionalText binding "HostPort".toList).bind parseU16 with
  | some hostPort => ports.addMapping containerPort hostPort
  | none => ports

/-- Add the bindings of a port. -/
def addPortEntry (ports : Ports) (entry : ν × ν) : Ports :=
  match (reader.toText entry.1).toOption.bind parsePortKey with
  | none => ports
  | some containerPort =>
      match reader.toArray entry.2 with
      | .ok bindings => bindings.foldl (addBinding reader containerPort) ports
      | .error _ => ports

/-- The ports in the daemon's document. -/
def parsePorts (parsed : ν) : Ports :=
  match reader.optional parsed "NetworkSettings".toList with
  | none => .empty
  | some networkSettings =>
      match reader.optional networkSettings "Ports".toList with
      | none => .empty
      | some portsJson =>
          match reader.toObject portsJson with
          | .ok entries => entries.foldl (addPortEntry reader) .empty
          | .error _ => .empty

end Reader

/-! ### The request -/

/-- **The check of the mapped ports**: it succeeds exactly if the container ports are
different, from each other and from those seen before. -/
theorem foldlM_insertMappedPort {seen : SortedMap ContainerPort UInt16}
    {ports : List PortMapping} :
    (∃ seen', ports.foldlM insertMappedPort seen = .ok seen') ↔
      (ports.map PortMapping.containerPort).Nodup ∧
        ∀ p ∈ ports, seen.get? p.containerPort = none := by
  induction ports generalizing seen with
  | nil => simp [pure, Except.pure]
  | cons p ports ih =>
      rw [List.foldlM_cons, insertMappedPort]
      cases hseen : seen.get? p.containerPort with
      | some previous =>
          simp [bind, Except.bind, hseen]
      | none =>
          simp only [bind, Except.bind, ih, SortedMap.get?_insert, List.map_cons, List.nodup_cons,
            List.forall_mem_cons, hseen, true_and]
          constructor
          · rintro ⟨hnodup, hnew⟩
            refine ⟨⟨?_, hnodup⟩, ?_⟩
            · intro hmem
              obtain ⟨q, hq, hport⟩ := List.mem_map.mp hmem
              exact absurd (hnew q hq) (by simp [hport])
            · intro q hq
              have hnone := hnew q hq
              split at hnone
              · exact absurd hnone (by simp)
              · exact hnone
          · rintro ⟨⟨hp, hnodup⟩, hnone⟩
            refine ⟨hnodup, ?_⟩
            intro q hq
            have hne : q.containerPort ≠ p.containerPort := by
              intro hport
              exact hp (hport ▸ List.mem_map_of_mem hq)
            rw [if_neg hne, hnone q hq]

/-- **No container port is mapped twice.** -/
theorem rejectDuplicateMappedPorts_eq_ok_iff {ports : List PortMapping} :
    rejectDuplicateMappedPorts ports = .ok () ↔
      (ports.map PortMapping.containerPort).Nodup := by
  have hfold : (∃ seen, ports.foldlM insertMappedPort .empty = .ok seen) ↔ _ :=
    foldlM_insertMappedPort
  simp only [SortedMap.get?_empty, implies_true, and_true] at hfold
  rw [← hfold, rejectDuplicateMappedPorts, bind_eq_ok]
  simp

/-- The check of a request that may have no mappings. -/
theorem elim_rejectDuplicateMappedPorts (ports : Option (List PortMapping)) :
    ports.elim (.ok ()) rejectDuplicateMappedPorts =
      rejectDuplicateMappedPorts (ports.getD []) := by
  cases ports <;> rfl

/-- A port is added for each exposed one that is not there. By induction on the exposed
ports: one that is mapped is passed over, and any other one is added behind the rest. -/
theorem addExposedPorts_spec (ports : List PortMapping) (exposed : List ContainerPort)
    (h : (ports.map PortMapping.containerPort).Nodup) :
    ((addExposedPorts ports exposed).map PortMapping.containerPort).Nodup ∧
      ∀ p, p ∈ addExposedPorts ports exposed ↔ p ∈ ports ∨ p.hostPort = 0 ∧
        p.containerPort ∈ exposed ∧ p.containerPort ∉ ports.map PortMapping.containerPort := by
  induction exposed generalizing ports with
  | nil => simpa [addExposedPorts] using h
  | cons e exposed ih =>
      rw [addExposedPorts, List.foldl_cons, ← addExposedPorts]
      have hany : (ports.any fun p => p.containerPort = e) = true ↔
          e ∈ ports.map PortMapping.containerPort := by
        simp [List.any_eq_true]
      split
      · next hmapped =>
          rw [hany] at hmapped
          obtain ⟨hnodup, hmem⟩ := ih ports h
          refine ⟨hnodup, ?_⟩
          intro p
          rw [hmem p, List.mem_cons]
          constructor
          · exact Or.imp_right fun ⟨hzero, hexposed, hnot⟩ => ⟨hzero, .inr hexposed, hnot⟩
          · rintro (hp | ⟨hzero, rfl | hexposed, hnot⟩)
            · exact .inl hp
            · exact absurd hmapped hnot
            · exact .inr ⟨hzero, hexposed, hnot⟩
      · next hmapped =>
          rw [hany] at hmapped
          obtain ⟨hnodup, hmem⟩ := ih (ports ++ [{ hostPort := 0, containerPort := e }]) (by
            rw [List.map_append, List.nodup_append_comm]
            exact List.nodup_cons.mpr ⟨hmapped, h⟩)
          refine ⟨hnodup, ?_⟩
          intro p
          rw [hmem p, List.mem_append, List.mem_singleton, List.mem_cons, List.map_append,
            List.mem_append, List.map_singleton, List.mem_singleton, not_or]
          constructor
          · rintro ((hp | rfl) | ⟨hzero, hexposed, hnot, -⟩)
            · exact .inl hp
            · exact .inr ⟨rfl, .inl rfl, hmapped⟩
            · exact .inr ⟨hzero, .inr hexposed, hnot⟩
          · rintro (hp | ⟨hzero, hexposed, hnot⟩)
            · exact .inl (.inl hp)
            · by_cases hport : p.containerPort = e
              · exact .inl (.inr (by rw [← hzero, ← hport]))
              · exact .inr ⟨hzero, hexposed.resolve_left hport, hnot, hport⟩

/-! ### Keys -/

/-- Digits are read one after the other. -/
theorem foldlM_pushDigit {digits : Text} (hdigits : ∀ c ∈ digits, c.isDigit = true) {n : ℕ}
    (hlt : Nat.ofDigitChars 10 digits n < 65536) :
    digits.foldlM pushDigit n = some (Nat.ofDigitChars 10 digits n) := by
  induction digits generalizing n with
  | nil => rfl
  | cons c digits ih =>
      rw [Nat.ofDigitChars_cons] at hlt ⊢
      have hle : 10 * n + (c.toNat - 48) ≤
          Nat.ofDigitChars 10 digits (10 * n + (c.toNat - 48)) := by
        rw [Nat.ofDigitChars_eq_ofDigitChars_zero]
        exact Nat.le_add_right_of_le (Nat.le_mul_of_pos_left _ (Nat.pow_pos (by omega)))
      rw [List.foldlM_cons, pushDigit,
        if_pos ⟨hdigits c List.mem_cons_self, hle.trans_lt hlt⟩]
      exact ih (fun c hc => hdigits c (List.mem_cons_of_mem _ hc)) hlt

/-- **A port number is read back from its digits.** There is no sign in front of the
digits. -/
theorem parseU16_naturalText (n : UInt16) : parseU16 (naturalText n.toNat) = some n := by
  have hdigits : ∀ c ∈ naturalText n.toNat, c.isDigit = true :=
    fun _ hc => isDigit_of_mem_naturalText hc
  have hplus : (naturalText n.toNat).head? ≠ some '+' := by
    intro h
    exact absurd (hdigits '+' (List.mem_of_mem_head? h)) (by decide)
  have hvalue : Nat.ofDigitChars 10 (naturalText n.toNat) 0 = n.toNat :=
    Nat.ofDigitChars_ten_toDigits
  have hlt : Nat.ofDigitChars 10 (naturalText n.toNat) 0 < 65536 := hvalue.trans_lt n.toNat_lt
  rw [parseU16, if_neg hplus, if_neg (naturalText_ne_nil _), foldlM_pushDigit hdigits hlt, hvalue,
    Option.map_some, UInt16.ofNat_toNat]

/-- **A port is read back from its key.** Neither the number nor the protocol has a
slash. -/
theorem parsePortKey_key (port : ContainerPort) : parsePortKey port.key = some port := by
  have hnumber : '/' ∉ naturalText port.asU16.toNat := by
    intro hmem
    exact absurd (isDigit_of_mem_naturalText hmem) (by decide)
  have hprotocol : '/' ∉ port.asStr := by
    cases port <;> simp [ContainerPort.asStr]
  have hsplit : port.key.splitOn '/' = [naturalText port.asU16.toNat, port.asStr] := by
    rw [ContainerPort.key, List.splitOn_append_cons_self_of_not_mem hnumber,
      List.splitOn_eq_singleton hprotocol]
  rw [parsePortKey, hsplit]
  simp only [parseU16_naturalText]
  cases port <;> rfl

/-! ### The document -/

/-- The value of a port in the document: one binding, to a port of the host. -/
def BindsTo (value : Json) (hostPort : UInt16) : Prop :=
  ∃ binding, value = .array [binding] ∧
    binding.HasMember "HostPort" (.string (naturalText hostPort.toNat))

/-- The document has the ports `started` under their keys, each with one binding. -/
def InspectsPorts (doc : Json) (started : List (ContainerPort × UInt16)) : Prop :=
  ∃ networkSettings entries, doc.HasMember "NetworkSettings" networkSettings ∧
    networkSettings.HasMember "Ports" (.object entries) ∧
    List.Forall₂ (fun entry s => entry.1 = s.1.key ∧ BindsTo entry.2 s.2) entries started

section Reader

variable {ν : Type} {reader : RawJson ν} {represents : ν → Json → Prop}

/-- One port of the document. -/
theorem addPortEntry_eq (hreader : reader.Faithful represents) (ports : Ports) {entry : ν × ν}
    {value : Json} {s : ContainerPort × UInt16} (hkey : reader.toText entry.1 = .ok s.1.key)
    (hvalue : represents entry.2 value) (hbinds : BindsTo value s.2) :
    addPortEntry reader ports entry = ports.addMapping s.1 s.2 := by
  obtain ⟨binding, rfl, hmember⟩ := hbinds
  obtain ⟨elements, harray, helements⟩ := hreader.toArray hvalue
  obtain ⟨element, hbinding, rfl⟩ : ∃ element, represents element binding ∧
      elements = [element] := by
    cases helements with
    | cons hbinding hnil =>
        cases hnil
        exact ⟨_, hbinding, rfl⟩
  rw [addPortEntry, hkey, Except.toOption, Option.bind_some, parsePortKey_key]
  simp only [harray, List.foldl_cons, List.foldl_nil, addBinding]
  rw [hreader.optionalText hbinding hmember, Option.bind_some, parseU16_naturalText]

/-- All ports of the document. By induction on the entries, each of which is added under
its own key. -/
theorem foldl_addPortEntry (hreader : reader.Faithful represents) {entries : List (ν × ν)}
    {members : List (Text × Json)} {started : List (ContainerPort × UInt16)}
    (hentries : List.Forall₂ (fun entry member => reader.toText entry.1 = .ok member.1 ∧
      represents entry.2 member.2) entries members)
    (hmembers : List.Forall₂ (fun entry s => entry.1 = s.1.key ∧ BindsTo entry.2 s.2) members
      started) (ports : Ports) :
    entries.foldl (addPortEntry reader) ports =
      ⟨started.foldl (fun map entry => map.insert entry.1 entry.2) ports.ipv4Mapping,
        ports.ipv6Mapping⟩ := by
  induction hentries generalizing started ports with
  | nil =>
      cases hmembers
      rfl
  | cons hentry _ ih =>
      cases hmembers with
      | cons hmember hmembers =>
          rw [List.foldl_cons, List.foldl_cons,
            addPortEntry_eq hreader ports (hmember.1 ▸ hentry.1) hentry.2 hmember.2, ih hmembers]
          rfl

/-- **The table of a document** with one binding for each port. -/
theorem parsePorts_spec (hreader : reader.Faithful represents) {parsed : ν} {doc : Json}
    (hparsed : represents parsed doc) {started : List (ContainerPort × UInt16)}
    (hdoc : InspectsPorts doc started) :
    parsePorts reader parsed = ⟨.ofList started, .empty⟩ := by
  obtain ⟨networkSettings, members, hnetwork, hports, hmembers⟩ := hdoc
  obtain ⟨v, hv, hnetwork⟩ := hreader.member hparsed hnetwork
  obtain ⟨w, hw, hports⟩ := hreader.member hnetwork hports
  obtain ⟨entries, hentries, hall⟩ := hreader.toObject hports
  simp only [parsePorts, hv, hw, hentries, foldl_addPortEntry hreader hall hmembers]
  rfl

end Reader

/-! ### The pipeline -/

/-- The port bindings have one entry for each port. -/
theorem perm_buildPortBindings {ports : List PortMapping}
    (h : (ports.map PortMapping.containerPort).Nodup) :
    (buildPortBindings ports).entries.Perm (ports.map fun p =>
      (p.containerPort.key, [⟨"0.0.0.0".toList, naturalText p.hostPort.toNat⟩])) := by
  rw [entries_buildPortBindings h]
  exact SortedMap.perm_sortByKey _

/-- What a request asks for a port of the container: the host port it is mapped to, or any (0)
for a port that is exposed. -/
def Requested (req : ContainerRequest) (p : PortMapping) : Prop :=
  p ∈ req.ports.getD [] ∨ p.hostPort = 0 ∧ p.containerPort ∈ req.exposePorts ∧
    p.containerPort ∉ (req.ports.getD []).map PortMapping.containerPort

/-- **No port is lost on Linux.** For every request whose mappings are accepted the
configuration is built, and has each mapped or exposed port once, with the host port of its
mapping or 0. The port bindings have one entry for each of them, nothing being overwritten,
and the exposed ports are the same keys. And whatever document shows these ports, each with one
host port, the one asked for unless that was 0, the table read from it maps each port to that
host port over IPv4, and nothing over IPv6. -/
theorem linuxPorts_lossless (req : ContainerRequest)
    (haccepted : rejectDuplicateMappedPorts (req.ports.getD []) = .ok ()) :
    ∃ config, buildContainerConfig req = some config ∧
      (config.ports.map PortMapping.containerPort).Nodup ∧
      (∀ p, p ∈ config.ports ↔ Requested req p) ∧
      (buildPortBindings config.ports).entries.Perm (config.ports.map fun p =>
        (p.containerPort.key, [⟨"0.0.0.0".toList, naturalText p.hostPort.toNat⟩])) ∧
      (buildExposedPorts config.ports).Nodup ∧
      (buildExposedPorts config.ports).Perm
        ((buildPortBindings config.ports).entries.map Prod.fst) ∧
      ∀ (ν : Type) (reader : RawJson ν) (represents : ν → Json → Prop) (parsed : ν) (doc : Json)
        (started : List (ContainerPort × UInt16)), reader.Faithful represents →
        (started.map Prod.fst).Perm (config.ports.map PortMapping.containerPort) →
        (∀ p ∈ config.ports, p.hostPort ≠ 0 → (p.containerPort, p.hostPort) ∈ started) →
        represents parsed doc → InspectsPorts doc started →
        (∀ port host, (parsePorts reader parsed).mapToHostPortIpv4 port = some host ↔
          (port, host) ∈ started) ∧
        (∀ p ∈ config.ports, p.hostPort ≠ 0 →
          (parsePorts reader parsed).mapToHostPortIpv4 p.containerPort = some p.hostPort) ∧
        (parsePorts reader parsed).ipv6Mapping = .empty := by
  obtain ⟨hnodup, hmem⟩ := addExposedPorts_spec (req.ports.getD []) req.exposePorts
    (rejectDuplicateMappedPorts_eq_ok_iff.mp haccepted)
  have hbindings := perm_buildPortBindings hnodup
  have hkeys := hbindings.map Prod.fst
  rw [List.map_map] at hkeys
  rw [buildContainerConfig, elim_rejectDuplicateMappedPorts, haccepted]
  refine ⟨_, rfl, hnodup, hmem, hbindings, nodup_keys hnodup, hkeys.symm, ?_⟩
  intro ν reader represents parsed doc started hreader hstarted hfixed hparsed hdoc
  have hget : ∀ port host, (parsePorts reader parsed).mapToHostPortIpv4 port = some host ↔
      (port, host) ∈ started := by
    intro port host
    rw [parsePorts_spec hreader hparsed hdoc, Ports.mapToHostPortIpv4,
      SortedMap.get?_ofList_eq_some_iff, SortedMap.isLast_iff_mem (hstarted.nodup_iff.mpr hnodup)]
  refine ⟨hget, ?_, ?_⟩
  · intro p hp hne
    exact (hget _ _).mpr (hfixed p hp hne)
  · rw [parsePorts_spec hreader hparsed hdoc]

/-- A request for a web server: port 80 at 8080, and port 53 twice, at any port. -/
def webRequest : ContainerRequest where
  descriptor := "nginx:latest".toList
  entrypoint := none
  cmd := []
  envVars := []
  ports := some [⟨8080, .tcp 80⟩]
  exposePorts := [.udp 53, .tcp 80, .udp 53]
  mounts := []
  labels := .empty
  privileged := false
  workingDir := none
  user := none
  init := false
  healthCheck := none
  capAdd := none
  capDrop := none
  shmSize := none
  readonlyRootfs := false
  hostname := none
  openStdin := none
  network := none
  hosts := []

/-- One binding in a document. -/
def bindingDocument (hostPort : String) : Json :=
  .array [.object [("HostIp".toList, .string "0.0.0.0".toList),
    ("HostPort".toList, .string hostPort.toList)]]

/-- What the daemon shows of the web server. -/
def webDocument : Json :=
  .object [("NetworkSettings".toList, .object [("Ports".toList, .object
    [("53/udp".toList, bindingDocument "49153"), ("80/tcp".toList, bindingDocument "8080")])])]

/-- The sample document reports the two sample ports. Each of its entries has the key and
the bindings of its port. -/
theorem inspectsPorts_webDocument :
    InspectsPorts webDocument [(.udp 53, 49153), (.tcp 80, 8080)] := by
  have hone : ∀ (key : Text) (value : Json), ([(key, value)].map Prod.fst).Nodup :=
    fun _ _ => List.nodup_singleton _
  have hbinding : ∀ hostPort : String,
      ([("HostIp".toList, Json.string "0.0.0.0".toList),
        ("HostPort".toList, Json.string hostPort.toList)].map Prod.fst).Nodup := by
    intro _
    show ["HostIp".toList, "HostPort".toList].Nodup
    decide
  refine ⟨_, _, ⟨_, rfl, hone _ _, List.mem_singleton_self _⟩,
    ⟨_, rfl, hone _ _, List.mem_singleton_self _⟩, ?_⟩
  refine .cons ⟨by decide +kernel, _, rfl, _, rfl, hbinding _, ?_⟩
    (.cons ⟨by decide +kernel, _, rfl, _, rfl, hbinding _, ?_⟩ .nil)
  · rw [show naturalText (49153 : UInt16).toNat = "49153".toList by decide +kernel]
    exact List.mem_cons_of_mem _ (List.mem_singleton_self _)
  · rw [show naturalText (8080 : UInt16).toNat = "8080".toList by decide +kernel]
    exact List.mem_cons_of_mem _ (List.mem_singleton_self _)

/-- The ports of the web server arrive in the table. -/
theorem linuxPorts_lossless_web :
    (parsePorts Json.reader webDocument).mapToHostPortIpv4 (.tcp 80) = some 8080 ∧
      (parsePorts Json.reader webDocument).mapToHostPortIpv4 (.udp 53) = some 49153 ∧
      (parsePorts Json.reader webDocument).ipv6Mapping = .empty := by
  obtain ⟨config, hconfig, -, -, -, -, -, htable⟩ := linuxPorts_lossless webRequest
    (rejectDuplicateMappedPorts_eq_ok_iff.mpr (by decide))
  have hports : config.ports = [⟨8080, .tcp 80⟩, ⟨0, .udp 53⟩] := by
    obtain rfl := Option.some.inj hconfig
    decide
  rw [hports] at htable
  obtain ⟨hget, -, hipv6⟩ := htable Json Json.reader Eq webDocument webDocument _
    Json.faithful_reader (by decide) (by decide) rfl inspectsPorts_webDocument
  exact ⟨(hget _ _).mpr (by decide), (hget _ _).mpr (by decide), hipv6⟩

end ContainerRs
