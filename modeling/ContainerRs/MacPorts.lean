import ContainerRs.Ports
import ContainerRs.Lib.IpAddr

/-!
# Ports of a Container on macOS

Apple container has no ports of its own choice, so `build_config` (container_cfg.rs) asks the
operating system for a free one wherever the request leaves the host port open, up to 64 times
until one comes that is not taken in this request. Mappings are gone through in the order of
their declaration; a host port that comes up twice is an error.

The daemon is told of the ports, and tells of them, in an array `publishedPorts`
(`PortCfg`; `parse_published_ports`, xpc_client.rs).

The free ports that the operating system offers are a parameter, as is the JSON library.

## Main results

* `allocateUniqueFreeHostPort_eq_ok_iff`: the first port offered that is not taken.
* `buildPorts_spec`: what a successful assignment looks like.
* `buildConfigPorts_exact`: exactly when the assignment succeeds.
* `getIpv4_parsePublishedPorts`: the last accepted entry of the array counts.
* `publishedPorts_roundTrip`: the daemon's array read back.
-/

namespace ContainerRs

open Json Outcomes

/-- An error if a port of the request is one of SCTP. -/
def rejectSctpPorts (req : ContainerRequest) : Except Text Unit :=
  let isSctp : ContainerPort → Bool
    | .sctp _ => true
    | _ => false
  let mappedHasSctp := (req.ports.getD []).any fun p => isSctp p.containerPort
  let exposedHasSctp := req.exposePorts.any isSctp
  if mappedHasSctp || exposedHasSctp then
    .error "SCTP port publishing is not supported on Apple container".toList
  else .ok ()

/-- A published port. -/
structure PortCfg where
  hostAddress : Text
  hostPort : UInt16
  containerPort : UInt16
  proto : Text
  deriving DecidableEq, Repr

/-- The published port for a port of the container and one of the host. -/
def portCfg (port : ContainerPort) (hostPort : UInt16) : PortCfg where
  hostAddress := "0.0.0.0".toList
  hostPort := hostPort
  containerPort := port.asU16
  proto := port.asStr

/-- The host ports assigned so far, and how often the operating system has been asked. -/
structure HostPorts where
  allocated : List UInt16
  calls : ℕ

namespace HostPorts

/-- Before the first port. -/
def init : HostPorts := ⟨[], 0⟩

end HostPorts

/-! ### Assigning host ports -/

section Assignment

variable (offers : ℕ → Except Text UInt16)

/-- A free port of the host: what the operating system offers at this call. -/
def allocateFreeHostPort (call : ℕ) : Except Text UInt16 :=
  match offers call with
  | .ok port => .ok port
  | .error e => .error ("failed to allocate free host port: ".toList ++ e)

/-- A free port that has not been assigned, in so many tries. -/
def allocateUniqueFreeHostPort : ℕ → HostPorts → Except Text (UInt16 × HostPorts)
  | 0, _ => .error "failed to allocate a unique free host port after retries".toList
  | tries + 1, s => do
      let candidate ← allocateFreeHostPort offers s.calls
      if candidate ∈ s.allocated then
        allocateUniqueFreeHostPort tries { s with calls := s.calls + 1 }
      else .ok (candidate, ⟨candidate :: s.allocated, s.calls + 1⟩)

/-- The host port of a mapping. -/
def hostPortOf (p : PortMapping) (s : HostPorts) : Except Text (UInt16 × HostPorts) :=
  if p.hostPort = 0 then allocateUniqueFreeHostPort offers 64 s
  else if p.hostPort ∈ s.allocated then
    .error ("duplicate host port mapping for container port ".toList ++ p.containerPort.key ++
      ": host port ".toList ++ naturalText p.hostPort.toNat ++ " is already mapped".toList)
  else .ok (p.hostPort, { s with allocated := p.hostPort :: s.allocated })

/-- Publish a mapped port. -/
def publishMapped (s : HostPorts × List PortCfg) (p : PortMapping) :
    Except Text (HostPorts × List PortCfg) := do
  let (hostPort, allocated) ← hostPortOf offers p s.1
  .ok (allocated, s.2 ++ [portCfg p.containerPort hostPort])

/-- Publish an exposed port, unless it has been. -/
def publishExposed (s : HostPorts × List PortCfg) (exposed : ContainerPort) :
    Except Text (HostPorts × List PortCfg) :=
  if s.2.any fun p => p.containerPort = exposed.asU16 ∧ p.proto = exposed.asStr then .ok s
  else do
    let (hostPort, allocated) ← allocateUniqueFreeHostPort offers 64 s.1
    .ok (allocated, s.2 ++ [portCfg exposed hostPort])

/-- Publish the mapped ports and then the exposed ones. -/
def buildPorts (mapped : List PortMapping) (exposed : List ContainerPort) :
    Except Text (List PortCfg) := do
  let s ← mapped.foldlM (publishMapped offers) (.init, [])
  let s ← exposed.foldlM (publishExposed offers) s
  .ok s.2

/-- The port section of the configuration. -/
def buildConfigPorts (req : ContainerRequest) : Except Text (List PortCfg) := do
  rejectSctpPorts req
  req.ports.elim (.ok ()) rejectDuplicateMappedPorts
  buildPorts offers (req.ports.getD []) req.exposePorts

end Assignment

/-! ### What the daemon is told, and tells -/

/-- A published port as the daemon is told of it. -/
def PortCfg.document (p : PortCfg) : Json :=
  .object [("hostAddress".toList, .string p.hostAddress),
    ("hostPort".toList, .number p.hostPort.toNat),
    ("containerPort".toList, .number p.containerPort.toNat), ("proto".toList, .string p.proto),
    ("count".toList, .number 1)]

section Reader

variable {ν : Type} (reader : RawJson ν)

/-- The port of the container in an entry; what is missing or unusable has a default. -/
def publishedContainerPort (p : ν) : ContainerPort :=
  let containerPort := (reader.optionalU16 p "containerPort".toList).getD 0
  let proto := (reader.optionalText p "proto".toList).getD "tcp".toList
  if proto = "udp".toList then .udp containerPort
  else if proto = "sctp".toList then .sctp containerPort
  else .tcp containerPort

/-- The port of the host in an entry. -/
def publishedHostPort (p : ν) : UInt16 := (reader.optionalU16 p "hostPort".toList).getD 0

/-- The entry is for an IPv6 address of the host. -/
def publishedOverIpv6 (p : ν) : Bool :=
  IpAddr.isIpv6 ((reader.optionalText p "hostAddress".toList).getD [])

/-- Add an entry, unless one of its ports is 0. -/
def addPublishedPort (ports : Ports) (p : ν) : Ports :=
  let containerPort := publishedContainerPort reader p
  let hostPort := publishedHostPort reader p
  if hostPort = 0 ∨ containerPort.asU16 = 0 then ports
  else if publishedOverIpv6 reader p then ports.addIpv6Mapping containerPort hostPort
  else ports.addMapping containerPort hostPort

/-- The published ports of a container in the daemon's list. -/
def parsePublishedPorts (item : ν) : Ports :=
  match reader.optional item "configuration".toList with
  | none => .empty
  | some config =>
      match reader.optional config "publishedPorts".toList with
      | none => .empty
      | some publishedPorts =>
          match reader.toArray publishedPorts with
          | .ok arr => arr.foldl (addPublishedPort reader) .empty
          | .error _ => .empty

end Reader

/-! ### One allocation -/

section Assignment

variable {offers : ℕ → Except Text UInt16}

/-- Of the ports offered from now on, the one at the call `k` is the first that is not
assigned. -/
def FirstFree (offers : ℕ → Except Text UInt16) (s : HostPorts) (k : ℕ) (c : UInt16) : Prop :=
  offers (s.calls + k) = .ok c ∧ c ∉ s.allocated ∧
    ∀ j < k, ∃ d ∈ s.allocated, offers (s.calls + j) = .ok d

/-- A free port is what the system offers at that call. -/
theorem allocateFreeHostPort_eq_ok_iff {call : ℕ} {c : UInt16} :
    allocateFreeHostPort offers call = .ok c ↔ offers call = .ok c := by
  rw [allocateFreeHostPort]
  cases offers call <;> simp

/-- **The first port offered that is not assigned**, if it comes within the tries. By
induction on the tries: the first port offered is free, or it is assigned and the search
goes on with one try less. -/
theorem allocateUniqueFreeHostPort_eq_ok_iff {tries : ℕ} {s : HostPorts}
    {result : UInt16 × HostPorts} :
    allocateUniqueFreeHostPort offers tries s = .ok result ↔
      ∃ k < tries, ∃ c, FirstFree offers s k c ∧
        result = (c, ⟨c :: s.allocated, s.calls + k + 1⟩) := by
  induction tries generalizing s with
  | zero => simp [allocateUniqueFreeHostPort]
  | succ tries ih =>
      rw [allocateUniqueFreeHostPort, bind_eq_ok]
      simp only [allocateFreeHostPort_eq_ok_iff]
      constructor
      · rintro ⟨candidate, hoffer, h⟩
        split at h
        · next htaken =>
            obtain ⟨k, hk, c, ⟨hc, hfree, htakens⟩, rfl⟩ := ih.mp h
            refine ⟨k + 1, Nat.succ_lt_succ hk, c, ⟨?_, hfree, ?_⟩, ?_⟩
            · rw [← hc, Nat.add_assoc, Nat.add_comm 1 k]
            · intro j hj
              cases j with
              | zero => exact ⟨candidate, htaken, hoffer⟩
              | succ j =>
                  obtain ⟨d, hd, hoffer'⟩ := htakens j (Nat.lt_of_succ_lt_succ hj)
                  exact ⟨d, hd, by rw [← hoffer', Nat.add_assoc, Nat.add_comm 1 j]⟩
            · rw [Nat.add_assoc s.calls 1 k, Nat.add_comm 1 k]
        · next hfree =>
            obtain rfl := Except.ok.inj h
            exact ⟨0, Nat.succ_pos _, candidate, ⟨hoffer, hfree, by simp⟩, rfl⟩
      · rintro ⟨k, hk, c, ⟨hc, hfree, htakens⟩, rfl⟩
        cases k with
        | zero => exact ⟨c, hc, if_neg hfree⟩
        | succ k =>
            obtain ⟨d, hd, hoffer⟩ := htakens 0 (Nat.succ_pos k)
            refine ⟨d, hoffer, ?_⟩
            rw [if_pos hd]
            refine ih.mpr ⟨k, Nat.lt_of_succ_lt_succ hk, c, ⟨?_, hfree, ?_⟩, ?_⟩
            · rw [← hc, Nat.add_assoc, Nat.add_comm 1 k]
            · intro j hj
              obtain ⟨d', hd', hoffer'⟩ := htakens (j + 1) (Nat.succ_lt_succ hj)
              exact ⟨d', hd', by rw [← hoffer', Nat.add_assoc, Nat.add_comm 1 j]⟩
            · rw [Nat.add_assoc s.calls 1 k, Nat.add_comm 1 k]

/-! ### The assignment -/

/-- The ports published so far are `assigned`, each to a host port of its own. -/
structure Assigned (offers : ℕ → Except Text UInt16) (s : HostPorts × List PortCfg)
    (assigned : List (ContainerPort × UInt16)) : Prop where
  ports : s.2 = assigned.map fun a => portCfg a.1 a.2
  allocated : s.1.allocated = (assigned.map Prod.snd).reverse
  nodup : (assigned.map Prod.snd).Nodup
  nonzero : (∀ call c, offers call = .ok c → c ≠ 0) → ∀ a ∈ assigned, a.2 ≠ 0

/-- In the beginning no port has been published. -/
theorem assigned_nil : Assigned offers (.init, []) [] :=
  ⟨rfl, rfl, List.nodup_nil, fun _ _ ha => absurd ha List.not_mem_nil⟩

/-- One more port. It was free, so the host ports are still different. -/
theorem Assigned.concat {s : HostPorts × List PortCfg}
    {assigned : List (ContainerPort × UInt16)} (h : Assigned offers s assigned)
    {c : UInt16} (hfree : c ∉ s.1.allocated)
    (hnonzero : (∀ call c, offers call = .ok c → c ≠ 0) → c ≠ 0) (port : ContainerPort)
    (calls : ℕ) :
    Assigned offers (⟨c :: s.1.allocated, calls⟩, s.2 ++ [portCfg port c])
      (assigned ++ [(port, c)]) := by
  rw [h.allocated, List.mem_reverse] at hfree
  refine ⟨?_, ?_, ?_, ?_⟩
  · simp [h.ports]
  · simp [h.allocated]
  · rw [List.map_append, List.nodup_append_comm]
    exact List.nodup_cons.mpr ⟨hfree, h.nodup⟩
  · intro hoffers a ha
    rcases List.mem_append.mp ha with ha | ha
    · exact h.nonzero hoffers a ha
    · obtain rfl := List.mem_singleton.mp ha
      exact hnonzero hoffers

/-- The host port of a mapping is the one asked for, or the first free one offered. -/
theorem hostPortOf_eq_ok_iff {p : PortMapping} {s : HostPorts} {result : UInt16 × HostPorts} :
    hostPortOf offers p s = .ok result ↔
      p.hostPort = 0 ∧ (∃ k < 64, ∃ c, FirstFree offers s k c ∧
        result = (c, ⟨c :: s.allocated, s.calls + k + 1⟩)) ∨
      p.hostPort ≠ 0 ∧ p.hostPort ∉ s.allocated ∧
        result = (p.hostPort, { s with allocated := p.hostPort :: s.allocated }) := by
  rw [hostPortOf]
  split
  · next hzero => simp [hzero, allocateUniqueFreeHostPort_eq_ok_iff]
  · next hexplicit =>
      split
      · next htaken => simp [hexplicit, htaken]
      · next hfree => simp [hexplicit, hfree, eq_comm]

/-- **Step lemma of the mapped ports.** -/
theorem Assigned.publishMapped {s s' : HostPorts × List PortCfg}
    {assigned : List (ContainerPort × UInt16)} (h : Assigned offers s assigned)
    {p : PortMapping} (hs : publishMapped offers s p = .ok s') :
    ∃ c, Assigned offers s' (assigned ++ [(p.containerPort, c)]) ∧
      (p.hostPort ≠ 0 → c = p.hostPort) := by
  obtain ⟨result, hresult, hs'⟩ := bind_eq_ok.mp hs
  obtain rfl := Except.ok.inj hs'
  rcases hostPortOf_eq_ok_iff.mp hresult with
    ⟨hzero, k, -, c, ⟨hoffer, hfree, -⟩, rfl⟩ | ⟨hexplicit, hfree, rfl⟩
  · exact ⟨c, h.concat hfree (fun hoffers => hoffers _ _ hoffer) _ _, fun hne => absurd hzero hne⟩
  · exact ⟨p.hostPort, h.concat hfree (fun _ => hexplicit) _ _, fun _ => rfl⟩

/-- **Run lemma of the mapped ports.** By induction on the mappings: each is given the
host port that it names, or a free one, behind those before it. -/
theorem Assigned.foldlM_publishMapped {s s' : HostPorts × List PortCfg}
    {assigned : List (ContainerPort × UInt16)} (h : Assigned offers s assigned)
    {mapped : List PortMapping}
    (hs : mapped.foldlM (ContainerRs.publishMapped offers) s = .ok s') :
    ∃ new, Assigned offers s' (assigned ++ new) ∧
      new.map Prod.fst = mapped.map PortMapping.containerPort ∧
      ∀ p ∈ mapped, p.hostPort ≠ 0 → (p.containerPort, p.hostPort) ∈ new := by
  induction mapped generalizing s assigned with
  | nil =>
      obtain rfl := Except.ok.inj hs
      exact ⟨[], by rwa [List.append_nil], rfl, by simp⟩
  | cons p mapped ih =>
      rw [List.foldlM_cons, bind_eq_ok] at hs
      obtain ⟨t, ht, hrest⟩ := hs
      obtain ⟨c, hassigned, hc⟩ := h.publishMapped ht
      obtain ⟨new, hnew, hkeys, hexplicit⟩ := ih hassigned hrest
      refine ⟨(p.containerPort, c) :: new, by simpa using hnew, congrArg _ hkeys, ?_⟩
      intro q hq hne
      rcases List.mem_cons.mp hq with rfl | hq
      · rw [← hc hne]
        exact List.mem_cons_self
      · exact List.mem_cons_of_mem _ (hexplicit q hq hne)

/-- The number and the protocol of a published port are those of its port. -/
theorem portCfg_matches_iff {port e : ContainerPort} {c : UInt16} :
    (portCfg port c).containerPort = e.asU16 ∧ (portCfg port c).proto = e.asStr ↔ port = e := by
  constructor
  · rintro ⟨hnumber, hproto⟩
    refine ContainerPort.key_injective ?_
    rw [ContainerPort.key, ContainerPort.key, show port.asU16 = e.asU16 from hnumber,
      show port.asStr = e.asStr from hproto]
  · rintro rfl
    exact ⟨rfl, rfl⟩

/-- The port has been published. -/
def IsPublished (s : HostPorts × List PortCfg) (e : ContainerPort) : Prop :=
  ∃ p ∈ s.2, p.containerPort = e.asU16 ∧ p.proto = e.asStr

/-- The ports published are those that have been assigned a host port. -/
theorem Assigned.isPublished_iff {s : HostPorts × List PortCfg}
    {assigned : List (ContainerPort × UInt16)} (h : Assigned offers s assigned)
    {e : ContainerPort} : IsPublished s e ↔ e ∈ assigned.map Prod.fst := by
  rw [IsPublished, h.ports]
  simp only [List.mem_map, exists_exists_and_eq_and, portCfg_matches_iff]

/-- An exposed port is published already, or gets the first free host port offered. The
two cases are those of the code. -/
theorem publishExposed_eq_ok_iff {s s' : HostPorts × List PortCfg} {e : ContainerPort} :
    publishExposed offers s e = .ok s' ↔
      IsPublished s e ∧ s' = s ∨
      ¬ IsPublished s e ∧ ∃ k < 64, ∃ c, FirstFree offers s.1 k c ∧
        s' = (⟨c :: s.1.allocated, s.1.calls + k + 1⟩, s.2 ++ [portCfg e c]) := by
  have hany : (s.2.any fun p => p.containerPort = e.asU16 ∧ p.proto = e.asStr) = true ↔
      IsPublished s e := by
    simp [IsPublished]
  rw [publishExposed]
  split
  · next hmapped =>
      rw [hany] at hmapped
      simp [hmapped, eq_comm]
  · next hmapped =>
      rw [hany] at hmapped
      simp only [hmapped, false_and, false_or, not_false_eq_true, true_and, bind_eq_ok,
        allocateUniqueFreeHostPort_eq_ok_iff]
      constructor
      · rintro ⟨result, ⟨k, hk, c, hfree, rfl⟩, hs'⟩
        exact ⟨k, hk, c, hfree, (Except.ok.inj hs').symm⟩
      · rintro ⟨k, hk, c, hfree, rfl⟩
        exact ⟨_, ⟨k, hk, c, hfree, rfl⟩, rfl⟩

/-- **Run lemma of the exposed ports.** By induction on the ports: one that is published
already changes nothing, and any other one is new. -/
theorem Assigned.foldlM_publishExposed {s s' : HostPorts × List PortCfg}
    {assigned : List (ContainerPort × UInt16)} (h : Assigned offers s assigned)
    (hnodup : (assigned.map Prod.fst).Nodup) {exposed : List ContainerPort}
    (hs : exposed.foldlM (publishExposed offers) s = .ok s') :
    ∃ new, Assigned offers s' (assigned ++ new) ∧ ((assigned ++ new).map Prod.fst).Nodup ∧
      ∀ port, port ∈ (assigned ++ new).map Prod.fst ↔
        port ∈ assigned.map Prod.fst ∨ port ∈ exposed := by
  induction exposed generalizing s assigned with
  | nil =>
      obtain rfl := Except.ok.inj hs
      exact ⟨[], by rwa [List.append_nil], by rwa [List.append_nil], by simp⟩
  | cons e exposed ih =>
      rw [List.foldlM_cons, bind_eq_ok] at hs
      obtain ⟨t, ht, hrest⟩ := hs
      rcases publishExposed_eq_ok_iff.mp ht with
        ⟨hpublished, rfl⟩ | ⟨hnot, k, -, c, ⟨hoffer, hfree, -⟩, rfl⟩
      · obtain ⟨new, hnew, hkeys, hmem⟩ := ih h hnodup hrest
        refine ⟨new, hnew, hkeys, ?_⟩
        intro port
        rw [hmem port, List.mem_cons]
        constructor
        · exact Or.imp_right .inr
        · rintro (hassigned | rfl | hexposed)
          · exact .inl hassigned
          · exact .inl (h.isPublished_iff.mp hpublished)
          · exact .inr hexposed
      · rw [h.isPublished_iff] at hnot
        have hkeys : ((assigned ++ [(e, c)]).map Prod.fst).Nodup := by
          rw [List.map_append, List.nodup_append_comm]
          exact List.nodup_cons.mpr ⟨hnot, hnodup⟩
        obtain ⟨new, hnew, hkeys', hmem⟩ :=
          ih (h.concat hfree (fun hoffers => hoffers _ _ hoffer) e _) hkeys hrest
        rw [List.append_assoc, List.singleton_append] at hnew hkeys' hmem
        refine ⟨(e, c) :: new, hnew, hkeys', ?_⟩
        intro port
        rw [hmem port, List.map_append, List.mem_append, List.map_singleton, List.mem_singleton,
          List.mem_cons, or_assoc]

/-- **What a successful assignment looks like**: each mapped or exposed port once, at host
ports that are all different, those that were asked for among them. -/
theorem buildPorts_spec {mapped : List PortMapping} {exposed : List ContainerPort}
    {ports : List PortCfg} (hmapped : (mapped.map PortMapping.containerPort).Nodup)
    (h : buildPorts offers mapped exposed = .ok ports) :
    ∃ assigned : List (ContainerPort × UInt16),
      ports = (assigned.map fun a => portCfg a.1 a.2) ∧
      (assigned.map Prod.fst).Nodup ∧ (assigned.map Prod.snd).Nodup ∧
      (∀ port, port ∈ assigned.map Prod.fst ↔
        port ∈ mapped.map PortMapping.containerPort ∨ port ∈ exposed) ∧
      (∀ p ∈ mapped, p.hostPort ≠ 0 → (p.containerPort, p.hostPort) ∈ assigned) ∧
      ((∀ call c, offers call = .ok c → c ≠ 0) → ∀ a ∈ assigned, a.2 ≠ 0) := by
  obtain ⟨s, hs, h⟩ := bind_eq_ok.mp h
  obtain ⟨t, ht, h⟩ := bind_eq_ok.mp h
  obtain rfl := Except.ok.inj h
  obtain ⟨assigned, hassigned, hfst, hexplicit⟩ := assigned_nil.foldlM_publishMapped hs
  rw [List.nil_append] at hassigned
  obtain ⟨new, hnew, hkeys, hmem⟩ := hassigned.foldlM_publishExposed (hfst ▸ hmapped) ht
  refine ⟨assigned ++ new, hnew.ports, hkeys, hnew.nodup, hfst ▸ hmem, ?_, hnew.nonzero⟩
  intro p hp hne
  exact List.mem_append_left _ (hexplicit p hp hne)

/-! ### When the assignment succeeds -/

/-- The host ports that the mappings name. -/
def explicitHostPorts (mapped : List PortMapping) : List UInt16 :=
  (mapped.map PortMapping.hostPort).filter (· ≠ 0)

/-- Within 64 tries a port is offered that is not assigned, and the first such port is none of
those named `later`. -/
def CanAllocate (offers : ℕ → Except Text UInt16) (s : HostPorts) (later : List UInt16) : Prop :=
  ∃ k < 64, ∃ c, FirstFree offers s k c ∧ c ∉ later

/-- Each mapping without a host port can be given one that no mapping behind it names. -/
def MappedCanAllocate (offers : ℕ → Except Text UInt16) (s : HostPorts × List PortCfg)
    (mapped : List PortMapping) : Prop :=
  ∀ pre p post t, mapped = pre ++ p :: post → p.hostPort = 0 →
    pre.foldlM (ContainerRs.publishMapped offers) s = .ok t →
    CanAllocate offers t.1 (explicitHostPorts post)

/-- Each exposed port that has not been published can be given a host port. -/
def ExposedCanAllocate (offers : ℕ → Except Text UInt16) (s : HostPorts × List PortCfg)
    (exposed : List ContainerPort) : Prop :=
  ∀ pre e post t, exposed = pre ++ e :: post →
    pre.foldlM (ContainerRs.publishExposed offers) s = .ok t → ¬ IsPublished t e →
    CanAllocate offers t.1 []

/-- A mapping in front of the others: it can be given a port, and the others can be given
theirs behind it. -/
theorem mappedCanAllocate_cons {s s' : HostPorts × List PortCfg} {p : PortMapping}
    {mapped : List PortMapping} (hs : publishMapped offers s p = .ok s') :
    MappedCanAllocate offers s (p :: mapped) ↔
      (p.hostPort = 0 → CanAllocate offers s.1 (explicitHostPorts mapped)) ∧
        MappedCanAllocate offers s' mapped := by
  constructor
  · intro h
    constructor
    · intro hzero
      exact h [] p mapped s rfl hzero rfl
    · rintro pre q post t rfl hzero hpre
      refine h (p :: pre) q post t rfl hzero ?_
      rw [List.foldlM_cons, hs]
      exact hpre
  · rintro ⟨hfirst, hrest⟩ pre q post t hsplit hzero hpre
    cases pre with
    | nil =>
        obtain ⟨rfl, rfl⟩ := List.cons.inj hsplit
        obtain rfl := Except.ok.inj hpre
        exact hfirst hzero
    | cons q' pre =>
        obtain ⟨rfl, rfl⟩ := List.cons.inj hsplit
        rw [List.foldlM_cons, hs] at hpre
        exact hrest pre q post t rfl hzero hpre

/-- The step of a mapping without a host port. -/
theorem publishMapped_zero_iff {s s' : HostPorts × List PortCfg} {p : PortMapping}
    (hzero : p.hostPort = 0) :
    publishMapped offers s p = .ok s' ↔ ∃ k < 64, ∃ c, FirstFree offers s.1 k c ∧
      s' = (⟨c :: s.1.allocated, s.1.calls + k + 1⟩, s.2 ++ [portCfg p.containerPort c]) := by
  rw [publishMapped, bind_eq_ok]
  simp only [hostPortOf_eq_ok_iff, hzero, true_and, ne_eq, not_true_eq_false, false_and, or_false]
  constructor
  · rintro ⟨result, ⟨k, hk, c, hfree, rfl⟩, hs'⟩
    exact ⟨k, hk, c, hfree, (Except.ok.inj hs').symm⟩
  · rintro ⟨k, hk, c, hfree, rfl⟩
    exact ⟨_, ⟨k, hk, c, hfree, rfl⟩, rfl⟩

/-- The step of a mapping that names its host port. -/
theorem publishMapped_explicit_iff {s s' : HostPorts × List PortCfg} {p : PortMapping}
    (hexplicit : p.hostPort ≠ 0) :
    publishMapped offers s p = .ok s' ↔ p.hostPort ∉ s.1.allocated ∧
      s' = ({ s.1 with allocated := p.hostPort :: s.1.allocated },
        s.2 ++ [portCfg p.containerPort p.hostPort]) := by
  rw [publishMapped, bind_eq_ok]
  simp only [hostPortOf_eq_ok_iff, hexplicit, false_and, false_or, ne_eq, not_false_eq_true,
    true_and]
  constructor
  · rintro ⟨result, ⟨hfree, rfl⟩, hs'⟩
    exact ⟨hfree, (Except.ok.inj hs').symm⟩
  · rintro ⟨hfree, rfl⟩
    exact ⟨_, ⟨hfree, rfl⟩, rfl⟩

/-- The host ports that the mappings name are different and not assigned before, and each of the
others can be given one. -/
def MappedCanPublish (offers : ℕ → Except Text UInt16) (s : HostPorts × List PortCfg)
    (mapped : List PortMapping) : Prop :=
  (explicitHostPorts mapped).Nodup ∧ (∀ c ∈ explicitHostPorts mapped, c ∉ s.1.allocated) ∧
    MappedCanAllocate offers s mapped

/-- Where there are no mappings, all can be published. -/
theorem mappedCanPublish_nil (s : HostPorts × List PortCfg) : MappedCanPublish offers s [] := by
  refine ⟨List.nodup_nil, by simp [explicitHostPorts], ?_⟩
  intro pre p post t hsplit
  exact absurd hsplit (by simp)

/-- The port that is given to a mapping is named by none behind it. So the ports that
those behind it name are still free once it has been published. -/
theorem mappedCanPublish_cons_of_zero {s : HostPorts × List PortCfg} {p : PortMapping}
    {mapped : List PortMapping} (hzero : p.hostPort = 0) :
    MappedCanPublish offers s (p :: mapped) ↔
      ∃ s', publishMapped offers s p = .ok s' ∧ MappedCanPublish offers s' mapped := by
  have hports : explicitHostPorts (p :: mapped) = explicitHostPorts mapped := by
    simp [explicitHostPorts, hzero]
  rw [MappedCanPublish, hports]
  constructor
  · rintro ⟨hnodup, hfree, hall⟩
    obtain ⟨k, hk, c, hfirst, hc⟩ := hall [] p mapped s rfl hzero rfl
    have hs' := (publishMapped_zero_iff hzero).mpr ⟨k, hk, c, hfirst, rfl⟩
    refine ⟨_, hs', hnodup, ?_, ((mappedCanAllocate_cons hs').mp hall).2⟩
    intro d hd hmem
    rcases List.mem_cons.mp hmem with rfl | hmem
    · exact hc hd
    · exact hfree d hd hmem
  · rintro ⟨s', hs', hnodup, hfree, hlater⟩
    obtain ⟨k, hk, c, hfirst, rfl⟩ := (publishMapped_zero_iff hzero).mp hs'
    refine ⟨hnodup, fun d hd hmem => hfree d hd (List.mem_cons_of_mem _ hmem), ?_⟩
    refine (mappedCanAllocate_cons hs').mpr ⟨fun _ => ⟨k, hk, c, hfirst, ?_⟩, hlater⟩
    exact fun hc => hfree c hc List.mem_cons_self

/-- A port that a mapping names is neither assigned before nor named by one behind it. So
it is published, and the conditions on those behind it are what is left. -/
theorem mappedCanPublish_cons_of_ne {s : HostPorts × List PortCfg} {p : PortMapping}
    {mapped : List PortMapping} (hexplicit : p.hostPort ≠ 0) :
    MappedCanPublish offers s (p :: mapped) ↔
      ∃ s', publishMapped offers s p = .ok s' ∧ MappedCanPublish offers s' mapped := by
  have hports : explicitHostPorts (p :: mapped) = p.hostPort :: explicitHostPorts mapped := by
    simp [explicitHostPorts, hexplicit]
  rw [MappedCanPublish, hports, List.nodup_cons, List.forall_mem_cons]
  constructor
  · rintro ⟨⟨hnot, hnodup⟩, ⟨hp, hfree⟩, hall⟩
    have hs' : publishMapped offers s p = .ok _ :=
      (publishMapped_explicit_iff hexplicit).mpr ⟨hp, rfl⟩
    refine ⟨_, hs', hnodup, ?_, ((mappedCanAllocate_cons hs').mp hall).2⟩
    intro d hd hmem
    rcases List.mem_cons.mp hmem with rfl | hmem
    · exact hnot hd
    · exact hfree d hd hmem
  · rintro ⟨s', hs', hnodup, hfree, hlater⟩
    obtain ⟨hp, rfl⟩ := (publishMapped_explicit_iff hexplicit).mp hs'
    refine ⟨⟨?_, hnodup⟩, ⟨hp, ?_⟩, ?_⟩
    · exact fun hmem => hfree _ hmem List.mem_cons_self
    · exact fun d hd hmem => hfree d hd (List.mem_cons_of_mem _ hmem)
    · exact (mappedCanAllocate_cons hs').mpr ⟨fun h => absurd h hexplicit, hlater⟩

/-- **When all mapped ports are published.** By induction on the mappings, one case for a
mapping that names a host port and one for a mapping that does not. -/
theorem foldlM_publishMapped_isOk_iff {s : HostPorts × List PortCfg}
    {mapped : List PortMapping} :
    (∃ t, mapped.foldlM (publishMapped offers) s = .ok t) ↔ MappedCanPublish offers s mapped := by
  induction mapped generalizing s with
  | nil => exact iff_of_true ⟨s, rfl⟩ (mappedCanPublish_nil s)
  | cons p mapped ih =>
      have hbind : (∃ t, (p :: mapped).foldlM (publishMapped offers) s = .ok t) ↔
          ∃ s', publishMapped offers s p = .ok s' ∧
            ∃ t, mapped.foldlM (publishMapped offers) s' = .ok t := by
        simp only [List.foldlM_cons, bind_eq_ok]
        exact exists_comm.trans (exists_congr fun s' => exists_and_left)
      have hcons : MappedCanPublish offers s (p :: mapped) ↔
          ∃ s', publishMapped offers s p = .ok s' ∧ MappedCanPublish offers s' mapped := by
        by_cases hzero : p.hostPort = 0
        · exact mappedCanPublish_cons_of_zero hzero
        · exact mappedCanPublish_cons_of_ne hzero
      rw [hbind, hcons]
      exact exists_congr fun s' => and_congr_right fun _ => ih

/-- **When all exposed ports are published**: those left can be given a host port. A loop
succeeds if each of its steps does in the state it is reached in. -/
theorem foldlM_publishExposed_isOk_iff {s : HostPorts × List PortCfg}
    {exposed : List ContainerPort} :
    (∃ t, exposed.foldlM (publishExposed offers) s = .ok t) ↔
      ExposedCanAllocate offers s exposed := by
  rw [foldlM_isOk_iff]
  have hstep : ∀ (t : HostPorts × List PortCfg) (e : ContainerPort),
      (∃ t', publishExposed offers t e = .ok t') ↔
        (¬ IsPublished t e → CanAllocate offers t.1 []) := by
    intro t e
    simp only [publishExposed_eq_ok_iff]
    constructor
    · rintro ⟨t', ⟨hpublished, -⟩ | ⟨-, k, hk, c, hfirst, -⟩⟩ hnot
      · exact absurd hpublished hnot
      · exact ⟨k, hk, c, hfirst, List.not_mem_nil⟩
    · intro h
      by_cases hpublished : IsPublished t e
      · exact ⟨t, .inl ⟨hpublished, rfl⟩⟩
      · obtain ⟨k, hk, c, hfirst, -⟩ := h hpublished
        exact ⟨_, .inr ⟨hpublished, k, hk, c, hfirst, rfl⟩⟩
  constructor
  · intro h pre e post t hsplit hpre
    exact (hstep t e).mp (h pre e post t hsplit hpre)
  · intro h pre e post t hsplit hpre
    exact (hstep t e).mpr (h pre e post t hsplit hpre)

/-- **The ports of macOS.** For an accepted request the port section of the configuration
succeeds exactly if the host ports that the mappings name are all different and each of the
others can be given one; and then every mapped or exposed port is published once, at host
ports that are all different, those that were named among them and none of them 0. -/
theorem buildConfigPorts_complete (offers : ℕ → Except Text UInt16)
    (hoffers : ∀ call c, offers call = .ok c → c ≠ 0) (req : ContainerRequest)
    (hsctp : rejectSctpPorts req = .ok ())
    (haccepted : rejectDuplicateMappedPorts (req.ports.getD []) = .ok ()) :
    ((∃ ports, buildConfigPorts offers req = .ok ports) ↔
      (explicitHostPorts (req.ports.getD [])).Nodup ∧
      MappedCanAllocate offers (.init, []) (req.ports.getD []) ∧
      ∀ s, (req.ports.getD []).foldlM (publishMapped offers) (.init, []) = .ok s →
        ExposedCanAllocate offers s req.exposePorts) ∧
    ∀ ports, buildConfigPorts offers req = .ok ports →
      ∃ assigned : List (ContainerPort × UInt16),
        ports = (assigned.map fun a => portCfg a.1 a.2) ∧
        (assigned.map Prod.fst).Nodup ∧ (assigned.map Prod.snd).Nodup ∧
        (∀ port, port ∈ assigned.map Prod.fst ↔
          port ∈ (req.ports.getD []).map PortMapping.containerPort ∨ port ∈ req.exposePorts) ∧
        (∀ p ∈ req.ports.getD [], p.hostPort ≠ 0 → (p.containerPort, p.hostPort) ∈ assigned) ∧
        ∀ a ∈ assigned, a.2 ≠ 0 := by
  have hbuild : buildConfigPorts offers req =
      buildPorts offers (req.ports.getD []) req.exposePorts := by
    rw [buildConfigPorts, hsctp, elim_rejectDuplicateMappedPorts, haccepted]
    rfl
  rw [hbuild]
  constructor
  · have hmapped : (∃ t, (req.ports.getD []).foldlM (publishMapped offers) (.init, []) = .ok t) ↔
        _ := foldlM_publishMapped_isOk_iff
    constructor
    · rintro ⟨ports, hports⟩
      obtain ⟨s, hs, hrest⟩ := bind_eq_ok.mp hports
      obtain ⟨t, ht, -⟩ := bind_eq_ok.mp hrest
      obtain ⟨hnodup, -, hcan⟩ := hmapped.mp ⟨s, hs⟩
      refine ⟨hnodup, hcan, ?_⟩
      intro s' hs'
      obtain rfl := Except.ok.inj (hs.symm.trans hs')
      exact foldlM_publishExposed_isOk_iff.mp ⟨t, ht⟩
    · rintro ⟨hnodup, hcan, hexposed⟩
      obtain ⟨s, hs⟩ := hmapped.mpr ⟨hnodup, fun _ _ => List.not_mem_nil, hcan⟩
      obtain ⟨t, ht⟩ := foldlM_publishExposed_isOk_iff.mpr (hexposed s hs)
      exact ⟨t.2, bind_eq_ok.mpr ⟨s, hs, bind_eq_ok.mpr ⟨t, ht, rfl⟩⟩⟩
  · intro ports hports
    obtain ⟨assigned, h, hfst, hsnd, hmem, hexplicit, hnonzero⟩ :=
      buildPorts_spec (rejectDuplicateMappedPorts_eq_ok_iff.mp haccepted) hports
    exact ⟨assigned, h, hfst, hsnd, hmem, hexplicit, hnonzero hoffers⟩

/-- The published ports of the web server. -/
def webPorts : List PortCfg := [portCfg (.tcp 80) 8080, portCfg (.udp 53) 40001]

/-- Port 80 at a host port of its own, the exposed port 53 at the one offered. -/
theorem buildConfigPorts_complete_web :
    ∃ assigned : List (ContainerPort × UInt16),
      webPorts = (assigned.map fun a => portCfg a.1 a.2) ∧
      (assigned.map Prod.fst).Nodup ∧ (assigned.map Prod.snd).Nodup ∧
      (∀ port, port ∈ assigned.map Prod.fst ↔
        port ∈ (webRequest.ports.getD []).map PortMapping.containerPort ∨
          port ∈ webRequest.exposePorts) ∧
      (∀ p ∈ webRequest.ports.getD [], p.hostPort ≠ 0 →
        (p.containerPort, p.hostPort) ∈ assigned) ∧
      ∀ a ∈ assigned, a.2 ≠ 0 := by
  refine (buildConfigPorts_complete (fun _ => .ok 40001) ?_ webRequest rfl ?_).2 _ ?_
  · rintro call c ⟨⟩
    decide
  · exact rejectDuplicateMappedPorts_eq_ok_iff.mpr (by decide)
  · decide +kernel

/-- A request for the ports 80, wherever, and 81 at 40000. -/
def earlyAllocationRequest : ContainerRequest :=
  { webRequest with ports := some [⟨0, .tcp 80⟩, ⟨40000, .tcp 81⟩], exposePorts := [] }

/-- A request for port 53 of two protocols, at the same host port. -/
def twoProtocolsRequest : ContainerRequest :=
  { webRequest with ports := some [⟨5353, .tcp 53⟩, ⟨5353, .udp 53⟩], exposePorts := [] }

/-- The operating system offers 40000 first. -/
def earlyOffers (call : ℕ) : Except Text UInt16 := .ok (if call = 0 then 40000 else 40001)

/-- The first request fails because the port offered first is one that is named later, although
another one would have been offered next; the second one because the host ports are compared
without their protocols. -/
theorem buildConfigPorts_early_allocation :
    (rejectSctpPorts earlyAllocationRequest = .ok () ∧
      rejectDuplicateMappedPorts [⟨0, .tcp 80⟩, ⟨40000, .tcp 81⟩] = .ok () ∧
      (∀ call, ∃ k < 64, earlyOffers (call + k) = .ok 40001) ∧
      40001 ∉ explicitHostPorts [⟨0, .tcp 80⟩, ⟨40000, .tcp 81⟩] ∧
      buildConfigPorts earlyOffers earlyAllocationRequest =
        .error ("duplicate host port mapping for container port 81/tcp: ".toList ++
          "host port 40000 is already mapped".toList)) ∧
    (rejectSctpPorts twoProtocolsRequest = .ok () ∧
      rejectDuplicateMappedPorts [⟨5353, .tcp 53⟩, ⟨5353, .udp 53⟩] = .ok () ∧
      [((5353 : UInt16), "tcp"), (5353, "udp")].Nodup ∧
      buildConfigPorts earlyOffers twoProtocolsRequest =
        .error ("duplicate host port mapping for container port 53/udp: ".toList ++
          "host port 5353 is already mapped".toList)) := by
  refine ⟨⟨rfl, ?_, ?_, by decide, ?_⟩, rfl, ?_, by decide, ?_⟩
  · exact rejectDuplicateMappedPorts_eq_ok_iff.mpr (by decide)
  · intro call
    exact ⟨1, by omega, rfl⟩
  · decide +kernel
  · exact rejectDuplicateMappedPorts_eq_ok_iff.mpr (by decide)
  · decide +kernel

end Assignment

/-! ### Reading the published ports -/

section Reader

variable {ν : Type}

/-- The entry publishes a port of the container at one of the host, over IPv6 if its address is
one of IPv6 and over IPv4 otherwise. A protocol that is missing or unknown is TCP. -/
structure Publishes (reader : RawJson ν) (ipv6 : Bool) (p : ν) (port : ContainerPort)
    (host : UInt16) : Prop where
  containerPort : (reader.optionalU16 p "containerPort".toList).getD 0 = port.asU16
  protocol : port.asStr = "udp".toList ∧ reader.optionalText p "proto".toList = some port.asStr ∨
    port.asStr = "sctp".toList ∧ reader.optionalText p "proto".toList = some port.asStr ∨
    port.asStr = "tcp".toList ∧ reader.optionalText p "proto".toList ≠ some "udp".toList ∧
      reader.optionalText p "proto".toList ≠ some "sctp".toList
  hostPort : (reader.optionalU16 p "hostPort".toList).getD 0 = host
  usable : host ≠ 0 ∧ port.asU16 ≠ 0
  family : IpAddr.isIpv6 ((reader.optionalText p "hostAddress".toList).getD []) = ipv6

/-- What an entry adds to one of the two tables. -/
def publishedMapping (reader : RawJson ν) (ipv6 : Bool) (p : ν) : Option (ContainerPort × UInt16) :=
  if publishedHostPort reader p = 0 ∨ (publishedContainerPort reader p).asU16 = 0 ∨
      publishedOverIpv6 reader p ≠ ipv6 then none
  else some (publishedContainerPort reader p, publishedHostPort reader p)

variable {reader : RawJson ν}

/-- **The port of an entry** is the one with its number and its protocol, which is TCP unless
the entry names another that is known. -/
theorem publishedContainerPort_eq_iff {p : ν} {port : ContainerPort} :
    publishedContainerPort reader p = port ↔
      (reader.optionalU16 p "containerPort".toList).getD 0 = port.asU16 ∧
        (port.asStr = "udp".toList ∧ reader.optionalText p "proto".toList = some port.asStr ∨
          port.asStr = "sctp".toList ∧ reader.optionalText p "proto".toList = some port.asStr ∨
          port.asStr = "tcp".toList ∧ reader.optionalText p "proto".toList ≠ some "udp".toList ∧
            reader.optionalText p "proto".toList ≠ some "sctp".toList) := by
  rw [publishedContainerPort]
  generalize (reader.optionalU16 p "containerPort".toList).getD 0 = number
  generalize reader.optionalText p "proto".toList = proto
  cases proto with
  | none => cases port <;> simp [ContainerPort.asStr, ContainerPort.asU16]
  | some proto =>
      by_cases hudp : proto = "udp".toList
      · subst hudp
        cases port <;> simp [ContainerPort.asStr, ContainerPort.asU16]
      by_cases hsctp : proto = "sctp".toList
      · subst hsctp
        cases port <;> simp [ContainerPort.asStr, ContainerPort.asU16]
      · simp only [Option.getD_some, hudp, hsctp, if_false, Option.some.injEq]
        cases port <;> simp_all [ContainerPort.asStr, ContainerPort.asU16]

/-- An entry publishes a port exactly if it goes into the table of its family. The entries
that the code skips are those without a usable port, and those of the other family. -/
theorem publishedMapping_eq_some_iff {ipv6 : Bool} {p : ν} {port : ContainerPort}
    {host : UInt16} :
    publishedMapping reader ipv6 p = some (port, host) ↔ Publishes reader ipv6 p port host := by
  rw [publishedMapping]
  split
  · next hskip =>
      refine iff_of_false (by simp) ?_
      rintro ⟨hnumber, hproto, rfl, ⟨hhost, hport⟩, hfamily⟩
      obtain rfl := publishedContainerPort_eq_iff.mpr ⟨hnumber, hproto⟩
      rcases hskip with hzero | hzero | hother
      · exact hhost hzero
      · exact hport hzero
      · exact hother hfamily
  · next hkept =>
      rw [not_or, not_or, not_not] at hkept
      rw [Option.some.injEq, Prod.mk.injEq, publishedContainerPort_eq_iff]
      constructor
      · rintro ⟨hport, rfl⟩
        obtain rfl := publishedContainerPort_eq_iff.mpr hport
        exact ⟨hport.1, hport.2, rfl, ⟨hkept.1, hkept.2.1⟩, hkept.2.2⟩
      · rintro ⟨hnumber, hproto, rfl, -, -⟩
        exact ⟨⟨hnumber, hproto⟩, rfl⟩

/-- An entry whose host port or container port is missing, unusable or 0 publishes nothing. -/
theorem not_publishes_of_unusable {ipv6 : Bool} {p : ν} {port : ContainerPort} {host : UInt16}
    (h : (reader.optionalU16 p "hostPort".toList).getD 0 = 0 ∨
      (reader.optionalU16 p "containerPort".toList).getD 0 = 0) :
    ¬ Publishes reader ipv6 p port host := by
  rintro ⟨hnumber, -, rfl, ⟨hhost, hport⟩, -⟩
  rcases h with hzero | hzero
  · exact hhost hzero
  · exact hport (hnumber.symm.trans hzero)

/-- One entry goes into one table at most. Its family decides which. -/
theorem addPublishedPort_eq (ports : Ports) (p : ν) :
    addPublishedPort reader ports p =
      ⟨(publishedMapping reader false p).elim ports.ipv4Mapping fun e =>
          ports.ipv4Mapping.insert e.1 e.2,
        (publishedMapping reader true p).elim ports.ipv6Mapping fun e =>
          ports.ipv6Mapping.insert e.1 e.2⟩ := by
  rw [addPublishedPort, publishedMapping, publishedMapping]
  by_cases hhost : publishedHostPort reader p = 0
  · simp [hhost]
  by_cases hport : (publishedContainerPort reader p).asU16 = 0
  · simp [hhost, hport]
  cases hfamily : publishedOverIpv6 reader p <;>
    simp [hhost, hport, Ports.addMapping, Ports.addIpv6Mapping]

/-- The tables of all entries. By induction on the entries. -/
theorem foldl_addPublishedPort (arr : List ν) (ports : Ports) :
    arr.foldl (addPublishedPort reader) ports =
      ⟨(arr.filterMap (publishedMapping reader false)).foldl
          (fun map e => map.insert e.1 e.2) ports.ipv4Mapping,
        (arr.filterMap (publishedMapping reader true)).foldl
          (fun map e => map.insert e.1 e.2) ports.ipv6Mapping⟩ := by
  induction arr generalizing ports with
  | nil => rfl
  | cons p arr ih =>
      rw [List.foldl_cons, ih, addPublishedPort_eq]
      cases h4 : publishedMapping reader false p <;> cases h6 : publishedMapping reader true p <;>
        simp [h4, h6]

/-- The entry is the last one of the array that publishes the port over its family. -/
def LastPublishes (reader : RawJson ν) (ipv6 : Bool) (arr : List ν) (port : ContainerPort)
    (host : UInt16) : Prop :=
  ∃ pre p post, arr = pre ++ p :: post ∧ Publishes reader ipv6 p port host ∧
    ∀ later ∈ post, ∀ host', ¬ Publishes reader ipv6 later port host'

/-- The last mapping of a port that the entries lead to comes from the last entry that
publishes it. -/
theorem isLast_publishedMapping {ipv6 : Bool} {arr : List ν} {port : ContainerPort}
    {host : UInt16} :
    SortedMap.IsLast (port, host) (arr.filterMap (publishedMapping reader ipv6)) ↔
      LastPublishes reader ipv6 arr port host := by
  rw [SortedMap.isLast_filterMap, LastPublishes]
  simp only [publishedMapping_eq_some_iff]
  refine exists_congr fun pre => exists_congr fun p => exists_congr fun post =>
    and_congr_right fun _ => and_congr_right fun _ => forall₂_congr fun later _ => ?_
  constructor
  · intro h host' hlater
    exact h (port, host') (publishedMapping_eq_some_iff.mpr hlater) rfl
  · rintro h ⟨port', host'⟩ he rfl
    exact h host' (publishedMapping_eq_some_iff.mp he)

/-- **The last accepted entry counts**, in the table of its family. -/
theorem mapToHostPort_parsePublishedPorts {item config published : ν} {arr : List ν}
    (hconfig : reader.optional item "configuration".toList = some config)
    (hpublished : reader.optional config "publishedPorts".toList = some published)
    (harr : reader.toArray published = .ok arr) (port : ContainerPort) (host : UInt16) :
    ((parsePublishedPorts reader item).mapToHostPortIpv4 port = some host ↔
      LastPublishes reader false arr port host) ∧
    ((parsePublishedPorts reader item).mapToHostPortIpv6 port = some host ↔
      LastPublishes reader true arr port host) := by
  have hparse : parsePublishedPorts reader item =
      ⟨.ofList (arr.filterMap (publishedMapping reader false)),
        .ofList (arr.filterMap (publishedMapping reader true))⟩ := by
    simp only [parsePublishedPorts, hconfig, hpublished, harr, foldl_addPublishedPort]
    rfl
  rw [hparse, ← isLast_publishedMapping, ← isLast_publishedMapping]
  exact ⟨SortedMap.get?_ofList_eq_some_iff, SortedMap.get?_ofList_eq_some_iff⟩

/-! ### The round trip -/

variable {represents : ν → Json → Prop}

/-- The members of a published port. -/
theorem hasMember_document (p : PortCfg) :
    p.document.HasMember "hostAddress" (.string p.hostAddress) ∧
      p.document.HasMember "hostPort" (.number p.hostPort.toNat) ∧
      p.document.HasMember "containerPort" (.number p.containerPort.toNat) ∧
      p.document.HasMember "proto" (.string p.proto) := by
  have hkeys : ([("hostAddress".toList, Json.string p.hostAddress),
      ("hostPort".toList, .number p.hostPort.toNat),
      ("containerPort".toList, .number p.containerPort.toNat), ("proto".toList, .string p.proto),
      ("count".toList, .number 1)].map Prod.fst).Nodup := by
    show ["hostAddress".toList, "hostPort".toList, "containerPort".toList, "proto".toList,
      "count".toList].Nodup
    decide
  exact ⟨⟨_, rfl, hkeys, by simp⟩, ⟨_, rfl, hkeys, by simp⟩, ⟨_, rfl, hkeys, by simp⟩,
    ⟨_, rfl, hkeys, by simp⟩⟩

/-- A published port is read back. It is written with an IPv4 address, so it goes into
that table alone. -/
theorem publishedMapping_portCfg (hreader : reader.Faithful represents) {v : ν}
    {port : ContainerPort} {host : UInt16} (hv : represents v (portCfg port host).document)
    (hhost : host ≠ 0) (hport : port.asU16 ≠ 0) :
    publishedMapping reader false v = some (port, host) ∧
      publishedMapping reader true v = none := by
  obtain ⟨haddress, hhostPort, hcontainerPort, hproto⟩ := hasMember_document (portCfg port host)
  have hhost' : publishedHostPort reader v = host := by
    rw [publishedHostPort, hreader.optionalU16 hv hhostPort]
    rfl
  have hport' : publishedContainerPort reader v = port := by
    rw [publishedContainerPort, hreader.optionalU16 hv hcontainerPort,
      hreader.optionalText hv hproto]
    cases port <;> rfl
  have hfamily : publishedOverIpv6 reader v = false := by
    rw [publishedOverIpv6, hreader.optionalText hv haddress]
    refine IpAddr.not_isIpv6_of_notMem ?_
    show ':' ∉ "0.0.0.0".toList
    decide
  constructor
  · obtain ⟨hnumber, hproto⟩ := publishedContainerPort_eq_iff.mp hport'
    exact publishedMapping_eq_some_iff.mpr ⟨hnumber, hproto, hhost', ⟨hhost, hport⟩, hfamily⟩
  · rw [publishedMapping, hfamily, if_pos (.inr (.inr Bool.false_ne_true))]

/-- The published ports of an array are read back. By induction on the ports, each of
which is read back from its own entry. -/
theorem filterMap_publishedMapping (hreader : reader.Faithful represents) {arr : List ν}
    {assigned : List (ContainerPort × UInt16)}
    (harr : List.Forall₂ represents arr (assigned.map fun a => (portCfg a.1 a.2).document))
    (husable : ∀ a ∈ assigned, a.2 ≠ 0 ∧ a.1.asU16 ≠ 0) :
    arr.filterMap (publishedMapping reader false) = assigned ∧
      arr.filterMap (publishedMapping reader true) = [] := by
  induction assigned generalizing arr with
  | nil =>
      cases harr
      exact ⟨rfl, rfl⟩
  | cons a assigned ih =>
      cases harr with
      | cons hv harr =>
          obtain ⟨hhost, hport⟩ := husable a List.mem_cons_self
          obtain ⟨h4, h6⟩ := publishedMapping_portCfg hreader hv hhost hport
          obtain ⟨ih4, ih6⟩ := ih harr fun a ha => husable a (List.mem_cons_of_mem _ ha)
          exact ⟨by rw [List.filterMap_cons_some h4, ih4], by rw [List.filterMap_cons_none h6, ih6]⟩

/-- **The published ports read back.** What the configuration publishes is read as the table
of exactly these ports, over IPv4. And whatever the daemon's array holds, an entry whose host
or container port is missing, unusable or 0 publishes nothing, and of the entries that publish
a port the last one counts, those with an IPv6 address only among themselves. -/
theorem publishedPorts_roundTrip :
    (∀ (ν : Type) (reader : RawJson ν) (represents : ν → Json → Prop)
      (offers : ℕ → Except Text UInt16) (req : ContainerRequest) (ports : List PortCfg)
      (item : ν) (doc config : Json), reader.Faithful represents →
      (∀ call c, offers call = .ok c → c ≠ 0) → buildConfigPorts offers req = .ok ports →
      (∀ p ∈ ports, p.containerPort ≠ 0) → represents item doc →
      doc.HasMember "configuration" config →
      config.HasMember "publishedPorts" (.array (ports.map PortCfg.document)) →
      (∀ port host, (parsePublishedPorts reader item).mapToHostPortIpv4 port = some host ↔
        portCfg port host ∈ ports) ∧
      (parsePublishedPorts reader item).ipv6Mapping = .empty) ∧
    ∀ (ν : Type) (reader : RawJson ν) (item config published : ν) (arr : List ν),
      reader.optional item "configuration".toList = some config →
      reader.optional config "publishedPorts".toList = some published →
      reader.toArray published = .ok arr →
      (∀ p ipv6 port host, (reader.optionalU16 p "hostPort".toList).getD 0 = 0 ∨
        (reader.optionalU16 p "containerPort".toList).getD 0 = 0 →
        ¬ Publishes reader ipv6 p port host) ∧
      ∀ port host,
        ((parsePublishedPorts reader item).mapToHostPortIpv4 port = some host ↔
          LastPublishes reader false arr port host) ∧
        ((parsePublishedPorts reader item).mapToHostPortIpv6 port = some host ↔
          LastPublishes reader true arr port host) := by
  constructor
  · intro ν reader represents offers req ports item doc config hreader hoffers hports hnonzero
      hitem hconfig hpublished
    obtain ⟨_, -, hbuild⟩ := bind_eq_ok.mp hports
    obtain ⟨_, haccepted, hbuild⟩ := bind_eq_ok.mp hbuild
    rw [elim_rejectDuplicateMappedPorts] at haccepted
    obtain ⟨assigned, rfl, hfst, -, -, -, hhost⟩ :=
      buildPorts_spec (rejectDuplicateMappedPorts_eq_ok_iff.mp haccepted) hbuild
    obtain ⟨v, hv, hconfig⟩ := hreader.member hitem hconfig
    obtain ⟨w, hw, hpublished⟩ := hreader.member hconfig hpublished
    obtain ⟨arr, harr, hall⟩ := hreader.toArray hpublished
    rw [List.map_map] at hall
    have husable : ∀ a ∈ assigned, a.2 ≠ 0 ∧ a.1.asU16 ≠ 0 := by
      intro a ha
      exact ⟨hhost hoffers a ha, hnonzero _ (List.mem_map_of_mem ha)⟩
    obtain ⟨h4, h6⟩ := filterMap_publishedMapping hreader hall husable
    have hparse : parsePublishedPorts reader item = ⟨.ofList assigned, .empty⟩ := by
      simp only [parsePublishedPorts, hv, hw, harr, foldl_addPublishedPort, h4, h6]
      rfl
    rw [hparse]
    refine ⟨?_, rfl⟩
    intro port host
    rw [Ports.mapToHostPortIpv4, SortedMap.get?_ofList_eq_some_iff,
      SortedMap.isLast_iff_mem hfst, List.mem_map]
    constructor
    · intro hmem
      exact ⟨_, hmem, rfl⟩
    · rintro ⟨⟨port', host'⟩, hmem, heq⟩
      obtain rfl : port' = port := portCfg_matches_iff (c := host').mp
        ⟨congrArg PortCfg.containerPort heq, congrArg PortCfg.proto heq⟩
      obtain rfl : host' = host := congrArg PortCfg.hostPort heq
      exact hmem
  · intro ν reader item config published arr hconfig hpublished harr
    refine ⟨fun p ipv6 port host h => not_publishes_of_unusable h, ?_⟩
    exact mapToHostPort_parsePublishedPorts hconfig hpublished harr

/-- The web server in the daemon's list. -/
def webItem : Json :=
  .object [("configuration".toList, .object [("publishedPorts".toList,
    .array (webPorts.map PortCfg.document))])]

/-- An entry of the daemon for port 80 over IPv6, without a protocol. -/
def ipv6Entry (host : UInt16) : Json :=
  .object [("hostAddress".toList, .string "::1".toList), ("hostPort".toList, .number host.toNat),
    ("containerPort".toList, .number 80)]

/-- Port 80 over IPv4, and over IPv6 at two ports of the host. -/
def dualStackEntries : List Json :=
  [(portCfg (.tcp 80) 8080).document, ipv6Entry 8081, ipv6Entry 8082]

/-- A web server over both families in the daemon's list. -/
def dualStackItem : Json :=
  .object [("configuration".toList, .object [("publishedPorts".toList,
    .array dualStackEntries)])]

/-- The ports of the web server are read back, and of the entries over IPv6 the last one
counts, next to the one over IPv4. -/
theorem publishedPorts_roundTrip_web :
    ((parsePublishedPorts Json.reader webItem).mapToHostPortIpv4 (.tcp 80) = some 8080 ∧
      (parsePublishedPorts Json.reader webItem).mapToHostPortIpv4 (.udp 53) = some 40001 ∧
      (parsePublishedPorts Json.reader webItem).ipv6Mapping = .empty) ∧
    (parsePublishedPorts Json.reader dualStackItem).mapToHostPortIpv4 (.tcp 80) = some 8080 ∧
      (parsePublishedPorts Json.reader dualStackItem).mapToHostPortIpv6 (.tcp 80) =
        some 8082 := by
  have hports : buildConfigPorts (fun _ => .ok 40001) webRequest = .ok webPorts := by
    decide +kernel
  have hone : ∀ (key : Text) (value : Json), ([(key, value)].map Prod.fst).Nodup :=
    fun _ _ => List.nodup_singleton _
  obtain ⟨hget, hipv6⟩ := publishedPorts_roundTrip.1 Json Json.reader Eq _ webRequest webPorts
    webItem webItem _ Json.faithful_reader (by rintro call c ⟨⟩; decide) hports (by decide) rfl
    ⟨_, rfl, hone _ _, List.mem_singleton_self _⟩ ⟨_, rfl, hone _ _, List.mem_singleton_self _⟩
  obtain ⟨-, hdual⟩ := publishedPorts_roundTrip.2 Json Json.reader dualStackItem _ _
    dualStackEntries rfl rfl rfl
  have hipv4 : IpAddr.isIpv6 "0.0.0.0".toList = false := by decide +kernel
  have hipv6' : IpAddr.isIpv6 "::1".toList = true := by decide +kernel
  have hlast : Publishes Json.reader true (ipv6Entry 8082) (.tcp 80) 8082 :=
    ⟨rfl, .inr (.inr ⟨rfl, by decide, by decide⟩), rfl, by decide, hipv6'⟩
  have hother : ∀ later ∈ [ipv6Entry 8081, ipv6Entry 8082], ∀ host,
      ¬ Publishes Json.reader false later (.tcp 80) host := by
    intro later hlater host hpublishes
    have hfamily : IpAddr.isIpv6 "::1".toList = false := by
      simp only [List.mem_cons, List.not_mem_nil, or_false] at hlater
      rcases hlater with rfl | rfl
      · exact hpublishes.family
      · exact hpublishes.family
    exact Bool.false_ne_true (hfamily.symm.trans hipv6')
  refine ⟨⟨(hget _ _).mpr List.mem_cons_self, (hget _ _).mpr ?_, hipv6⟩,
    ((hdual _ _).1).mpr ⟨[], _, _, rfl, ?_, hother⟩,
    ((hdual _ _).2).mpr ⟨[_, _], _, [], rfl, hlast, by simp⟩⟩
  · exact List.mem_cons_of_mem _ (List.mem_singleton_self _)
  · exact ⟨rfl, .inr (.inr ⟨rfl, by decide, by decide⟩), rfl, by decide, hipv4⟩

end Reader

end ContainerRs
