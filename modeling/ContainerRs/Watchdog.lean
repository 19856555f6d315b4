import ContainerRs.Lib.Runs
import ContainerRs.Line

/-!
# The Watchdog

`register` (watchdog.rs) writes the id of every container to the standard input of a reaper
process, which deletes the containers it has been told of when its input ends: when the
process that holds the other end dies. A reaper that is found dead on a write is replaced
by a new one, and after three failures to spawn one the watchdog gives up.

A call of `register` holds the mutex of the reaper for its whole duration; the module runs
the calls in small steps between which reapers may be killed from outside.

## Main results

* `reaperScript_input`: the script deletes exactly the valid ids written to it.
* `WatchdogInv.of_step`: the calls count at most three failures.
* `complete_step_iff`: which steps leave a live reaper without a registered id.
* `registrations_kept_iff`: in a run every registered id is with the live reaper exactly if
  no reaper is spawned after the first registration.
-/

namespace ContainerRs

/-! ### Container ids and the script -/

/-- A letter or digit of ASCII. -/
def isAsciiAlphanumeric (b : UInt8) : Bool :=
  (48 ≤ b && b ≤ 57) || (65 ≤ b && b ≤ 90) || (97 ≤ b && b ≤ 122)

/-- Two to 63 letters, digits, `_`, `.` and `-`, the first a letter or digit. -/
def isValidContainerId (id : Bytes) : Bool :=
  if id.length < 2 || 63 < id.length then false
  else
    match id with
    | [] => false
    | first :: rest => isAsciiAlphanumeric first &&
        rest.all fun b => isAsciiAlphanumeric b || b = 95 || b = 46 || b = 45

/-- What a shell loop `while read -r` reads: the lines that end in a newline. -/
def readLoop (input : Bytes) : List Bytes := (input.splitOn newline).dropLast

/-- The ids for which the script runs `container rm --force` at the end of its input: the
first loop gathers the nonempty lines, the second one reads them back. -/
def reaperScript (input : Bytes) : List Bytes :=
  let ids := ((readLoop input).filter fun id => decide (id ≠ [])).flatMap fun id => id ++ [newline]
  readLoop ids

/-- Lines that were written one by one are read back. By induction on the lines: none of
them has a newline of its own. -/
theorem readLoop_flatMap {ids : List Bytes} (h : ∀ id ∈ ids, newline ∉ id) :
    readLoop (ids.flatMap fun id => id ++ [newline]) = ids := by
  induction ids with
  | nil => rfl
  | cons id ids ih =>
      have hid := h id List.mem_cons_self
      have hids : ∀ id ∈ ids, newline ∉ id := fun id hmem => h id (List.mem_cons_of_mem _ hmem)
      rw [readLoop] at ih ⊢
      rw [List.flatMap_cons, List.append_assoc, List.singleton_append,
        List.splitOn_append_cons_self_of_not_mem hid,
        List.dropLast_cons_of_ne_nil (List.splitOn_ne_nil _ _), ih hids]

/-- A valid id has neither a newline nor no bytes at all. -/
theorem newline_notMem_of_valid {id : Bytes} (h : isValidContainerId id = true) :
    newline ∉ id ∧ id ≠ [] := by
  cases id with
  | nil => exact absurd h (by decide)
  | cons first rest =>
      simp only [isValidContainerId] at h
      split at h
      · exact absurd h (by simp)
      · rw [Bool.and_eq_true] at h
        refine ⟨?_, List.cons_ne_nil _ _⟩
        intro hmem
        rcases List.mem_cons.mp hmem with rfl | hrest
        · exact absurd h.1 (by decide)
        · exact absurd (List.all_eq_true.mp h.2 newline hrest) (by decide)

/-! ### The parties -/

/-- A reaper process: whether it is alive, and the ids successfully written to it. -/
structure Reaper where
  alive : Bool
  ids : List Bytes
  deriving DecidableEq, Repr

namespace Reaper

/-- A reaper that has just been spawned. -/
def new : Reaper := { alive := true, ids := [] }

/-- The text on its standard input. -/
def input (r : Reaper) : Bytes := r.ids.flatMap fun id => id ++ [newline]

/-- The containers it deletes when its input ends. -/
def deleted (r : Reaper) : List Bytes := reaperScript r.input

end Reaper

/-- **The script deletes what was written**: every valid id, once for each time. -/
theorem reaperScript_input {r : Reaper} (h : ∀ id ∈ r.ids, isValidContainerId id = true) :
    r.deleted = r.ids := by
  have hline : ∀ id ∈ r.ids, newline ∉ id := fun id hid => (newline_notMem_of_valid (h id hid)).1
  have hkept : (r.ids.filter fun id => decide (id ≠ [])) = r.ids :=
    List.filter_eq_self.mpr fun id hid => decide_eq_true (newline_notMem_of_valid (h id hid)).2
  rw [Reaper.deleted, Reaper.input, reaperScript, readLoop_flatMap hline, hkept,
    readLoop_flatMap hline]

/-- Where the call of `register` that holds the mutex stands: none does, or it is in front
of its first spawn, its write, its second spawn or its second write. -/
inductive RegisterPc
  | idle
  | spawning (id : Bytes)
  | writing (id : Bytes)
  | respawning (id : Bytes)
  | rewriting (id : Bytes)
  deriving DecidableEq, Repr

/-- The static variables, the call in progress and all reapers ever spawned; `reaper` is
the one whose standard input is held. As history, `registered` are the ids of the calls that
have returned after a successful write. -/
structure Watchdog where
  reaper : Option ℕ
  spawnFailures : ℕ
  exhaustedWarned : Bool
  pc : RegisterPc
  reapers : List Reaper
  registered : List Bytes
  deriving DecidableEq, Repr

/-- A call of `register` begins, or takes its next step, where the system decides whether a
process can be spawned; or a reaper is killed. -/
inductive WatchdogAction
  | register (id : Bytes)
  | spawn (ok : Bool)
  | write
  | kill (i : ℕ)
  deriving DecidableEq, Repr

/-- After so many failures no reaper is spawned any more. -/
def maxSpawnFailures : ℕ := 3

namespace Watchdog

/-- Before the first call. -/
def init : Watchdog :=
  { reaper := none, spawnFailures := 0, exhaustedWarned := false, pc := .idle, reapers := [],
    registered := [] }

/-- Return, warning if the failures are exhausted. -/
def giveUp (s : Watchdog) : Watchdog :=
  { s with
    pc := .idle
    exhaustedWarned := s.exhaustedWarned || decide (maxSpawnFailures ≤ s.spawnFailures) }

/-- Count a failure to spawn a reaper and return without one. -/
def fail (s : Watchdog) : Watchdog :=
  { s with reaper := none, spawnFailures := s.spawnFailures + 1 }.giveUp

/-- Hold the standard input of a new reaper. -/
def spawned (s : Watchdog) (pc : RegisterPc) : Watchdog :=
  { s with reaper := some s.reapers.length, reapers := s.reapers ++ [Reaper.new], pc }

/-- The id has been written to the reaper, and the call returns. -/
def written (s : Watchdog) (i : ℕ) (r : Reaper) (id : Bytes) : Watchdog :=
  { s with
    reapers := s.reapers.set i { r with ids := r.ids ++ [id] }
    registered := s.registered ++ [id]
    pc := .idle }

/-- One step. A reaper that is found dead does not count as a failure. -/
def step (s : Watchdog) : WatchdogAction → Option Watchdog
  | .register id =>
      match s.pc with
      | .idle =>
          if !isValidContainerId id then some s
          else if s.reaper.isSome then some { s with pc := .writing id }
          else if maxSpawnFailures ≤ s.spawnFailures then some s.giveUp
          else some { s with pc := .spawning id }
      | _ => none
  | .spawn ok =>
      match s.pc with
      | .spawning id => some (if ok then s.spawned (.writing id) else s.fail)
      | .respawning id => some (if ok then s.spawned (.rewriting id) else s.fail)
      | _ => none
  | .write =>
      s.reaper.bind fun i => s.reapers[i]?.bind fun r =>
        match s.pc with
        | .writing id =>
            if r.alive then some (s.written i r id)
            else if maxSpawnFailures ≤ s.spawnFailures then some { s with reaper := none }.giveUp
            else some { s with reaper := none, pc := .respawning id }
        | .rewriting id => some (if r.alive then s.written i r id else s.fail)
        | _ => none
  | .kill i =>
      s.reapers[i]?.map fun r => { s with reapers := s.reapers.set i { r with alive := false } }

/-! ### What one step does -/

/-- The transitions: most move only the program counter and the bookkeeping of failures, and
perhaps let go of the reaper. -/
inductive Transition (s : Watchdog) : WatchdogAction → Watchdog → Prop
  | refused {id : Bytes} : Transition s (.register id) s
  | moved {a : WatchdogAction} (reaper : Option ℕ) (warned : Bool) (pc : RegisterPc) :
      a ≠ .spawn true → (reaper = none ∨ reaper = s.reaper) →
      (∀ id, pc = .writing id → isValidContainerId id = true) →
      (∀ id, pc = .spawning id ∨ pc = .respawning id → isValidContainerId id = true ∧
        s.spawnFailures < maxSpawnFailures) → (∀ id, pc ≠ .rewriting id) →
      Transition s a { s with reaper, exhaustedWarned := warned, pc }
  | failed {a : WatchdogAction} : a ≠ .spawn true →
      s.spawnFailures < maxSpawnFailures → Transition s a s.fail
  | spawnedFirst {id : Bytes} : s.pc = .spawning id →
      Transition s (.spawn true) (s.spawned (.writing id))
  | spawnedAgain {id : Bytes} : s.pc = .respawning id →
      Transition s (.spawn true) (s.spawned (.rewriting id))
  | wrote {i : ℕ} {r : Reaper} {id : Bytes} : s.pc = .writing id ∨ s.pc = .rewriting id →
      s.reaper = some i → s.reapers[i]? = some r → r.alive = true →
      Transition s .write (s.written i r id)
  | killed {i : ℕ} {r : Reaper} : s.reapers[i]? = some r →
      Transition s (.kill i)
        { s with reapers := s.reapers.set i { r with alive := false } }

/-- The ids in the lists and in the calls are valid, and a call goes on towards a spawn only
while failures are left. -/
structure WatchdogInv (s : Watchdog) : Prop where
  held : ∀ i, s.reaper = some i → i < s.reapers.length
  listed : ∀ r ∈ s.reapers, ∀ id ∈ r.ids, isValidContainerId id = true
  writing : ∀ id, s.pc = .writing id → isValidContainerId id = true
  spawning : ∀ id, s.pc = .spawning id ∨ s.pc = .respawning id ∨ s.pc = .rewriting id →
    isValidContainerId id = true ∧ s.spawnFailures < maxSpawnFailures
  failures : s.spawnFailures ≤ maxSpawnFailures

/-- **What one step does**: it is one of the transitions, with the guards of the step. One
case for each action. -/
theorem transition_of_step {s s' : Watchdog} {a : WatchdogAction} (hinv : s.WatchdogInv)
    (h : s.step a = some s') : s.Transition a s' := by
  cases a with
  | register id =>
      rw [step] at h
      split at h
      · split at h
        · obtain rfl := Option.some.inj h
          exact .refused
        · next hvalid =>
            have hvalid : isValidContainerId id = true := by simpa using hvalid
            split at h
            · obtain rfl := Option.some.inj h
              refine .moved s.reaper s.exhaustedWarned _ (by simp) (.inr rfl) ?_ (by simp) (by simp)
              rintro _ ⟨⟩
              exact hvalid
            · split at h
              · obtain rfl := Option.some.inj h
                exact .moved s.reaper _ .idle (by simp) (.inr rfl) (by simp) (by simp) (by simp)
              · next hleft =>
                  obtain rfl := Option.some.inj h
                  refine .moved s.reaper s.exhaustedWarned _ (by simp) (.inr rfl) (by simp) ?_
                    (by simp)
                  rintro _ (hpc | hpc) <;> cases hpc
                  exact ⟨hvalid, Nat.lt_of_not_le hleft⟩
      · exact absurd h (by simp)
  | spawn ok =>
      rw [step] at h
      split at h
      · next id hpc =>
          obtain rfl := Option.some.inj h
          cases ok with
          | true => exact .spawnedFirst hpc
          | false => exact .failed (by simp) (hinv.spawning id (.inl hpc)).2
      · next id hpc =>
          obtain rfl := Option.some.inj h
          cases ok with
          | true => exact .spawnedAgain hpc
          | false => exact .failed (by simp) (hinv.spawning id (.inr (.inl hpc))).2
      · exact absurd h (by simp)
  | write =>
      obtain ⟨i, hheld, h⟩ := Option.bind_eq_some_iff.mp h
      obtain ⟨r, hr, h⟩ := Option.bind_eq_some_iff.mp h
      split at h
      · next id hpc =>
          split at h
          · next halive =>
              obtain rfl := Option.some.inj h
              exact .wrote (.inl hpc) hheld hr halive
          · split at h
            · obtain rfl := Option.some.inj h
              exact .moved none _ .idle (by simp) (.inl rfl) (by simp) (by simp) (by simp)
            · next hleft =>
                obtain rfl := Option.some.inj h
                refine .moved none s.exhaustedWarned _ (by simp) (.inl rfl) (by simp) ?_ (by simp)
                rintro _ (hpc' | hpc') <;> cases hpc'
                exact ⟨hinv.writing id hpc, Nat.lt_of_not_le hleft⟩
      · next id hpc =>
          obtain rfl := Option.some.inj h
          split
          · next halive => exact .wrote (.inr hpc) hheld hr halive
          · exact .failed (by simp) (hinv.spawning id (.inr (.inr hpc))).2
      · exact absurd h (by simp)
  | kill i =>
      obtain ⟨r, hr, rfl⟩ := Option.map_eq_some_iff.mp h
      exact .killed hr

/-! ### The bookkeeping -/

/-- In the beginning there is no reaper and nothing is registered. -/
theorem watchdogInv_init : init.WatchdogInv :=
  ⟨by simp [init], by simp [init], by simp [init], by simp [init], Nat.zero_le _⟩

/-- The reapers after a change of one of them. -/
theorem listed_set {s : Watchdog} (h : s.WatchdogInv) (i : ℕ) {r : Reaper}
    (hr : ∀ id ∈ r.ids, isValidContainerId id = true) :
    ∀ r' ∈ s.reapers.set i r, ∀ id ∈ r'.ids, isValidContainerId id = true := by
  intro r' hr' id hid
  rcases List.mem_or_eq_of_mem_set hr' with hmem | rfl
  · exact h.listed r' hmem id hid
  · exact hr id hid

/-- A new reaper changes nothing about the old ones. -/
theorem watchdogInv_spawned {s : Watchdog} (h : s.WatchdogInv) {pc : RegisterPc}
    (hwriting : ∀ id, pc = .writing id → isValidContainerId id = true)
    (hspawning : ∀ id, pc = .spawning id ∨ pc = .respawning id ∨ pc = .rewriting id →
      isValidContainerId id = true ∧ s.spawnFailures < maxSpawnFailures) :
    (s.spawned pc).WatchdogInv := by
  refine ⟨?_, ?_, hwriting, hspawning, h.failures⟩
  · rintro i hi
    obtain rfl := Option.some.inj hi
    simp [spawned]
  · intro r hr id hid
    rcases List.mem_append.mp hr with hr | hr
    · exact h.listed r hr id hid
    · obtain rfl := List.mem_singleton.mp hr
      exact absurd hid List.not_mem_nil

/-- **The step lemma of the bookkeeping**: at most three failures are counted, and only
valid ids are written. -/
theorem WatchdogInv.of_step {s s' : Watchdog} {a : WatchdogAction} (h : s.WatchdogInv)
    (hs : s.step a = some s') : s'.WatchdogInv := by
  cases transition_of_step h hs with
  | refused => exact h
  | moved reaper warned pc _ hreaper hwriting hspawning hnot =>
      refine ⟨?_, h.listed, hwriting, ?_, h.failures⟩
      · intro i hi
        rcases hreaper with rfl | rfl
        · exact absurd hi (by simp)
        · exact h.held i hi
      · rintro id (hpc | hpc | hpc)
        · exact hspawning id (.inl hpc)
        · exact hspawning id (.inr hpc)
        · exact absurd hpc (hnot id)
  | failed _ hleft =>
      exact ⟨by simp [fail, giveUp], h.listed, by simp [fail, giveUp], by simp [fail, giveUp],
        hleft⟩
  | @spawnedFirst id hpc =>
      refine watchdogInv_spawned h ?_ (by simp)
      rintro _ ⟨⟩
      exact (h.spawning id (.inl hpc)).1
  | @spawnedAgain id hpc =>
      refine watchdogInv_spawned h (by simp) ?_
      rintro _ (hpc' | hpc' | hpc') <;> cases hpc'
      exact h.spawning id (.inr (.inl hpc))
  | @wrote i r id hpc hheld hr _ =>
      have hvalid : isValidContainerId id = true := by
        rcases hpc with hpc | hpc
        · exact h.writing id hpc
        · exact (h.spawning id (.inr (.inr hpc))).1
      refine ⟨?_, listed_set h i ?_, by simp [written], by simp [written], h.failures⟩
      · intro j hj
        simpa [written] using h.held j hj
      · intro id' hid'
        rcases List.mem_append.mp hid' with hid' | hid'
        · exact h.listed r (List.mem_of_getElem? hr) id' hid'
        · obtain rfl := List.mem_singleton.mp hid'
          exact hvalid
  | @killed i r hr =>
      refine ⟨?_, listed_set h i (h.listed r (List.mem_of_getElem? hr)), h.writing, h.spawning,
        h.failures⟩
      intro j hj
      simpa using h.held j hj

/-! ### The registered ids -/

/-- If the reaper held is alive, it deletes every registered container. -/
def Complete (s : Watchdog) : Prop :=
  ∀ i r, s.reaper = some i → s.reapers[i]? = some r → r.alive = true →
    ∀ id ∈ s.registered, id ∈ r.deleted

/-- The step spawns no reaper after an id has been registered. -/
def SpawnsFirst (s : Watchdog) : WatchdogAction → Prop
  | .spawn true => s.registered = []
  | _ => True

/-- The reaper held deletes the ids written to it. -/
theorem WatchdogInv.deleted_eq {s : Watchdog} (h : s.WatchdogInv) {i : ℕ} {r : Reaper}
    (hr : s.reapers[i]? = some r) : r.deleted = r.ids :=
  reaperScript_input (h.listed r (List.mem_of_getElem? hr))

/-- A step that leaves the reapers alone, and holds the same one or none, leaves the
registered ids where they are. -/
theorem Complete.of_reaper {s s' : Watchdog} (h : s.Complete)
    (hreaper : s'.reaper = none ∨ s'.reaper = s.reaper) (hreapers : s'.reapers = s.reapers)
    (hregistered : s'.registered = s.registered) : s'.Complete := by
  intro i r hheld hr halive id hid
  rcases hreaper with hnone | hsame
  · exact absurd (hnone.symm.trans hheld) (by simp)
  · exact h i r (hsame ▸ hheld) (hreapers ▸ hr) halive id (hregistered ▸ hid)

/-- A new reaper has been told of no container. -/
theorem complete_spawned_iff {s : Watchdog} (pc : RegisterPc) :
    (s.spawned pc).Complete ↔ s.registered = [] := by
  have hnew : (s.spawned pc).reapers[s.reapers.length]? = some Reaper.new := by
    simp [spawned]
  constructor
  · intro h
    refine List.eq_nil_iff_forall_not_mem.mpr ?_
    intro id hid
    exact absurd (h _ _ rfl hnew rfl id hid) List.not_mem_nil
  · intro h i r _ _ _ id hid
    rw [show (s.spawned pc).registered = s.registered from rfl, h] at hid
    exact absurd hid List.not_mem_nil

/-- **The step lemma**: a step from a state in which the live reaper has every registered id
leads to another one exactly if it spawns no reaper after a registration. -/
theorem complete_step_iff {s s' : Watchdog} {a : WatchdogAction} (hinv : s.WatchdogInv)
    (hp : s.Complete) (hs : s.step a = some s') : s'.Complete ↔ s.SpawnsFirst a := by
  have hinv' := hinv.of_step hs
  cases transition_of_step hinv hs with
  | refused => exact iff_of_true hp trivial
  | moved reaper warned pc hne hreaper =>
      refine iff_of_true (hp.of_reaper hreaper rfl rfl) ?_
      cases a with
      | spawn ok =>
          cases ok with
          | true => exact absurd rfl hne
          | false => trivial
      | register | write | kill => trivial
  | failed hne =>
      refine iff_of_true (hp.of_reaper (.inl rfl) rfl rfl) ?_
      cases a with
      | spawn ok =>
          cases ok with
          | true => exact absurd rfl hne
          | false => trivial
      | register | write | kill => trivial
  | spawnedFirst => exact complete_spawned_iff _
  | spawnedAgain => exact complete_spawned_iff _
  | @wrote i r id _ hheld hr halive =>
      refine iff_of_true ?_ trivial
      intro j r' hheld' hr' _ id' hid'
      obtain rfl : i = j := Option.some.inj (hheld.symm.trans hheld')
      rw [hinv'.deleted_eq hr']
      have hlt := hinv.held i hheld
      simp only [written, List.getElem?_set_self hlt, Option.some.injEq] at hr'
      subst hr'
      rcases List.mem_append.mp hid' with hold | hnew
      · exact List.mem_append_left _ (hinv.deleted_eq hr ▸ hp i r hheld hr halive id' hold)
      · exact List.mem_append_right _ hnew
  | @killed i r hr =>
      refine iff_of_true ?_ trivial
      intro j r' hheld hr' halive id hid
      by_cases hij : i = j
      · subst hij
        rw [List.getElem?_set_self (hinv.held i hheld), Option.some.injEq] at hr'
        subst hr'
        exact absurd halive (by simp)
      · rw [List.getElem?_set_ne hij] at hr'
        exact hp j r' hheld hr' halive id hid

/-- **Registrations are kept exactly while no reaper is replaced.** In every run, whenever
the reaper held is alive it deletes every container registered so far, if and only if no
step spawns a reaper after an id has been registered; and at most three failures to spawn
one are counted. -/
theorem registrations_kept_iff (acts : List WatchdogAction) (s : Watchdog)
    (hrun : Runs.run step init acts = some s) :
    (Runs.Always step init acts Complete ↔ Runs.StepsMeet step init acts SpawnsFirst) ∧
      Runs.Always step init acts fun t => t.spawnFailures ≤ maxSpawnFailures := by
  have hinv : Runs.Always step init acts WatchdogInv :=
    Runs.always_of_invariant (fun _ _ _ h hs => h.of_step hs) watchdogInv_init acts
  have hstart : init.Complete := fun i r hheld => absurd hheld (by simp [init])
  have hgood : ∀ (t : Watchdog) (a : WatchdogAction) (t' : Watchdog), t.WatchdogInv →
      t.Complete → t.step a = some t' → (t'.Complete ↔ t.SpawnsFirst a) :=
    fun _ _ _ hi hp hs => complete_step_iff hi hp hs
  exact ⟨Runs.always_iff_stepsMeet hgood hinv hstart hrun,
    fun pre post t hsplit hpre => (hinv pre post t hsplit hpre).failures⟩

/-- The id "c1" is registered with a first reaper; that one is killed, and the call for "c2"
finds it dead and replaces it. -/
def replacedReaperSchedule : List WatchdogAction :=
  [.register [99, 49], .spawn true, .write, .kill 0, .register [99, 50], .write, .spawn true,
    .write]

/-- The reaper held in the end is alive and does not know of "c1". -/
theorem registration_lost_with_reaper :
    ∃ s, Runs.run step init replacedReaperSchedule = some s ∧ s.pc = .idle ∧
      s.registered = [[99, 49], [99, 50]] ∧ s.reaper = some 1 ∧
      s.reapers[1]? = some { alive := true, ids := [[99, 50]] } ∧ ¬ s.Complete := by
  refine ⟨_, rfl, rfl, rfl, rfl, rfl, ?_⟩
  intro h
  exact absurd (h 1 _ rfl rfl rfl [99, 49] (by decide)) (by decide)

/-- Two registrations with one reaper, which is killed after them. -/
def oneReaperSchedule : List WatchdogAction :=
  [.register [99, 49], .spawn false, .register [99, 49], .spawn true, .write,
    .register [99, 50], .write, .kill 0]

/-- The one reaper is spawned before any id is registered, and so it deletes every container
registered while it is alive. -/
theorem registrations_kept_iff_oneReaper :
    Runs.Always step init oneReaperSchedule Complete ∧
      Runs.StepsMeet step init oneReaperSchedule SpawnsFirst ∧
        Runs.Always step init oneReaperSchedule fun t =>
          t.spawnFailures ≤ maxSpawnFailures := by
  have hmeets : Runs.StepsMeet step init oneReaperSchedule SpawnsFirst := by
    iterate 3 refine (Runs.stepsMeet_cons rfl).mpr ⟨trivial, ?_⟩
    refine (Runs.stepsMeet_cons rfl).mpr ⟨rfl, ?_⟩
    iterate 4 refine (Runs.stepsMeet_cons rfl).mpr ⟨trivial, ?_⟩
    exact Runs.stepsMeet_nil
  obtain ⟨hiff, hfailures⟩ := registrations_kept_iff oneReaperSchedule _ rfl
  exact ⟨hiff.mpr hmeets, hmeets, hfailures⟩

end Watchdog

end ContainerRs
