import ContainerRs.Lib.Runs
import Mathlib.Data.List.Basic
import Mathlib.Logic.Function.Basic

/-!
# Log Sessions of Overlapping Starts

On Linux a start of a stopped container lets `refresh_log_streams` (async_container.rs) renew
its log session: the handle in `log_source` is cloned and stopped, the container is started, a
new session is spawned, its handle is stored in `log_source`, and the consumer tasks are
spawned on it. Only the accesses to `log_source` are made under its lock.

The module models one container and any number of overlapping calls of `start` as interleaved
atomic steps, and follows the log sessions. The container may also exit on its own.

A session is lost when a call stores its handle over that of a session which nobody has
stopped or is about to stop: from then on no call finds it any more.

## Main results

* `Kept.of_step`: as long as no session is lost, every session that is not stopped is held
  in `log_source` or by a call that will stop or store it.
* `Lost.of_step`: a lost session stays lost.
* `one_live_session_iff`: no state between the calls has a session that delivers beside the
  one in `log_source` exactly if no session is lost.
-/

namespace ContainerRs

/-! ### The parties -/

/-- A log session: whether its handle has been stopped, and whether consumer tasks have been
spawned on it. -/
structure LogSession where
  stopped : Bool
  feeding : Bool
  deriving DecidableEq, Repr

/-- Where a call of `start` stands: not called, in front of one of its steps, or returned
(`started`: whether with `Ok`). `old` is the handle it has cloned, `new` the one it has
spawned. -/
inductive RefreshPc
  | idle
  | containerState
  | cloneHandle
  | stopHandle (old : Option ℕ)
  | startContainer (old : Option ℕ)
  | spawnLogSession
  | stopAgain
  | storeHandle (new : ℕ)
  | spawnConsumers (new : ℕ)
  | returned (started : Bool)
  deriving DecidableEq, Repr

/-- In front of this step a call holds no handle that it will stop, store or feed. -/
def RefreshPc.Inert : RefreshPc → Prop
  | .stopHandle (some _) | .storeHandle _ | .spawnConsumers _ => False
  | _ => True

/-- The container, its consumers, the handle in `log_source`, all sessions ever spawned and
the calls of `start`. A handle is the index of its session. -/
structure RefreshSystem where
  running : Bool
  hasConsumers : Bool
  logSource : Option ℕ
  sessions : List LogSession
  starts : ℕ → RefreshPc

/-- The steps of a call of `start`; the daemon decides whether a request succeeds. -/
inductive RefreshStep
  | call
  | containerState (ok : Bool)
  | cloneHandle
  | stopHandle
  | startContainer (ok : Bool)
  | spawnLogSession (ok : Bool)
  | stopAgain (ok : Bool)
  | storeHandle
  | spawnConsumers
  deriving DecidableEq, Repr

/-- A step of one call, or the container exits. -/
inductive RefreshAction
  | exit
  | start (i : ℕ) (a : RefreshStep)
  deriving DecidableEq, Repr

namespace RefreshSystem

/-- A stopped container. Its first session, if it has one, feeds the consumers, if there are
any, and may have been stopped. -/
def init (hasConsumers : Bool) (session : Option Bool) : RefreshSystem :=
  { running := false
    hasConsumers
    logSource := session.map fun _ => 0
    sessions := session.toList.map fun stopped => { stopped, feeding := hasConsumers }
    starts := fun _ => .idle }

/-- Move call `i` on. -/
def goto (s : RefreshSystem) (i : ℕ) (pc : RefreshPc) : RefreshSystem :=
  { s with starts := Function.update s.starts i pc }

/-- Stop the session of a handle. -/
def stopSession (s : RefreshSystem) (handle : ℕ) : RefreshSystem :=
  { s with sessions := s.sessions.modify handle fun x => { x with stopped := true } }

/-- A new session, which nobody has stopped and which feeds no consumers yet. -/
def spawnSession (s : RefreshSystem) : RefreshSystem :=
  { s with sessions := s.sessions ++ [{ stopped := false, feeding := false }] }

/-- Spawn the consumer tasks on the session of a handle, if there are consumers. -/
def feedConsumers (s : RefreshSystem) (handle : ℕ) : RefreshSystem :=
  { s with
    sessions := s.sessions.modify handle fun x =>
      { x with feeding := x.feeding || s.hasConsumers } }

/-- One step of call `i`. A running container is not restarted, and one without a log session goes
on without one. -/
def stepStart (s : RefreshSystem) (i : ℕ) : RefreshStep → Option RefreshSystem
  | .call =>
      match s.starts i with
      | .idle | .returned _ => some (s.goto i .containerState)
      | _ => none
  | .containerState ok =>
      match s.starts i with
      | .containerState =>
          if !ok then some (s.goto i (.returned false))
          else if s.running then some (s.goto i (.returned true))
          else some (s.goto i .cloneHandle)
      | _ => none
  | .cloneHandle =>
      match s.starts i with
      | .cloneHandle => some (s.goto i (.stopHandle s.logSource))
      | _ => none
  | .stopHandle =>
      match s.starts i with
      | .stopHandle none => some (s.goto i (.startContainer none))
      | .stopHandle (some old) =>
          some ((s.stopSession old).goto i (.startContainer (some old)))
      | _ => none
  | .startContainer ok =>
      match s.starts i with
      | .startContainer old =>
          if ok then
            let s : RefreshSystem := { s with running := true }
            some (s.goto i (if old.isSome then .spawnLogSession else .returned true))
          else some (s.goto i (.returned false))
      | _ => none
  | .spawnLogSession ok =>
      match s.starts i with
      | .spawnLogSession =>
          if ok then
            let new := s.sessions.length
            some (s.spawnSession.goto i (.storeHandle new))
          else some (s.goto i .stopAgain)
      | _ => none
  | .stopAgain ok =>
      match s.starts i with
      | .stopAgain =>
          let s : RefreshSystem := { s with running := s.running && !ok }
          some (s.goto i (.returned false))
      | _ => none
  | .storeHandle =>
      match s.starts i with
      | .storeHandle new =>
          let s : RefreshSystem := { s with logSource := some new }
          some (s.goto i (.spawnConsumers new))
      | _ => none
  | .spawnConsumers =>
      match s.starts i with
      | .spawnConsumers new => some ((s.feedConsumers new).goto i (.returned true))
      | _ => none

/-- One step of the system. -/
def step (s : RefreshSystem) : RefreshAction → Option RefreshSystem
  | .exit => if s.running then some { s with running := false } else none
  | .start i a => s.stepStart i a

/-- No call of `start` is in progress. -/
def Quiescent (s : RefreshSystem) : Prop :=
  ∀ i, s.starts i = .idle ∨ ∃ started, s.starts i = .returned started

/-- A session that feeds the consumers and has not been stopped. -/
def Live (s : RefreshSystem) (handle : ℕ) : Prop :=
  ∃ x, s.sessions[handle]? = some x ∧ x.feeding = true ∧ x.stopped = false

/-- At most one session is live, and it is the one in `log_source`. -/
def OneLive (s : RefreshSystem) : Prop :=
  (∀ h h', s.Live h → s.Live h' → h = h') ∧ ∀ h, s.Live h → s.logSource = some h

/-- A session that is stopped, or that a call has cloned and is about to stop. -/
def Stopping (s : RefreshSystem) (handle : ℕ) : Prop :=
  (∃ x, s.sessions[handle]? = some x ∧ x.stopped = true) ∨
    ∃ j, s.starts j = .stopHandle (some handle)

/-- The step stores no handle over that of a session which nobody has stopped or is about to
stop; without consumers it does not matter. -/
def Replaces (s : RefreshSystem) : RefreshAction → Prop
  | .start _ .storeHandle => s.hasConsumers = false ∨ ∀ h, s.logSource = some h → s.Stopping h
  | _ => True

/-! ### What one step does -/

/-- The transitions of the system, as far as the sessions are concerned: the other steps only
move program counters between steps that hold no handle, and start or stop the container. -/
inductive Transition (s : RefreshSystem) : RefreshAction → RefreshSystem → Prop
  | exited : Transition s .exit { s with running := false }
  | moved {i : ℕ} {a : RefreshStep} (running : Bool) {pc : RefreshPc} : a ≠ .storeHandle →
      (s.starts i).Inert → pc.Inert → Transition s (.start i a) (goto { s with running } i pc)
  | cloned {i : ℕ} : (s.starts i).Inert →
      Transition s (.start i .cloneHandle) (s.goto i (.stopHandle s.logSource))
  | stopped {i old : ℕ} : s.starts i = .stopHandle (some old) →
      Transition s (.start i .stopHandle)
        ((s.stopSession old).goto i (.startContainer (some old)))
  | spawned {i : ℕ} : (s.starts i).Inert →
      Transition s (.start i (.spawnLogSession true))
        (s.spawnSession.goto i (.storeHandle s.sessions.length))
  | stored {i new : ℕ} : s.starts i = .storeHandle new →
      Transition s (.start i .storeHandle)
        (goto { s with logSource := some new } i (.spawnConsumers new))
  | fed {i new : ℕ} : s.starts i = .spawnConsumers new →
      Transition s (.start i .spawnConsumers)
        ((s.feedConsumers new).goto i (.returned true))

/-- **What one step of a call does**: it is one of the transitions, with the guards of the
step. -/
theorem transition_of_stepStart {s s' : RefreshSystem} {i : ℕ} {a : RefreshStep}
    (h : s.stepStart i a = some s') : s.Transition (.start i a) s' := by
  cases a with
  | call =>
      rw [stepStart] at h
      split at h
      · next hpc =>
          obtain rfl := Option.some.inj h
          exact .moved s.running (by simp) (by rw [hpc]; trivial) trivial
      · next hpc =>
          obtain rfl := Option.some.inj h
          exact .moved s.running (by simp) (by rw [hpc]; trivial) trivial
      · exact absurd h (by simp)
  | containerState ok =>
      rw [stepStart] at h
      split at h
      · next hpc =>
          have hinert : (s.starts i).Inert := by rw [hpc]; trivial
          split at h
          · obtain rfl := Option.some.inj h
            exact .moved s.running (by simp) hinert trivial
          · split at h <;> obtain rfl := Option.some.inj h <;>
              exact .moved s.running (by simp) hinert trivial
      · exact absurd h (by simp)
  | cloneHandle =>
      rw [stepStart] at h
      split at h
      · next hpc =>
          obtain rfl := Option.some.inj h
          exact .cloned (by rw [hpc]; trivial)
      · exact absurd h (by simp)
  | stopHandle =>
      rw [stepStart] at h
      split at h
      · next hpc =>
          obtain rfl := Option.some.inj h
          exact .moved s.running (by simp) (by rw [hpc]; trivial) trivial
      · next old hpc =>
          obtain rfl := Option.some.inj h
          exact .stopped hpc
      · exact absurd h (by simp)
  | startContainer ok =>
      rw [stepStart] at h
      split at h
      · next old hpc =>
          have hinert : (s.starts i).Inert := by rw [hpc]; trivial
          split at h
          · obtain rfl := Option.some.inj h
            refine .moved true (by simp) hinert ?_
            split <;> trivial
          · obtain rfl := Option.some.inj h
            exact .moved s.running (by simp) hinert trivial
      · exact absurd h (by simp)
  | spawnLogSession ok =>
      rw [stepStart] at h
      split at h
      · next hpc =>
          have hinert : (s.starts i).Inert := by rw [hpc]; trivial
          cases ok with
          | true =>
              obtain rfl := Option.some.inj h
              exact .spawned hinert
          | false =>
              obtain rfl := Option.some.inj h
              exact .moved s.running (by simp) hinert trivial
      · exact absurd h (by simp)
  | stopAgain ok =>
      rw [stepStart] at h
      split at h
      · next hpc =>
          obtain rfl := Option.some.inj h
          exact .moved _ (by simp) (by rw [hpc]; trivial) trivial
      · exact absurd h (by simp)
  | storeHandle =>
      rw [stepStart] at h
      split at h
      · next new hpc =>
          obtain rfl := Option.some.inj h
          exact .stored hpc
      · exact absurd h (by simp)
  | spawnConsumers =>
      rw [stepStart] at h
      split at h
      · next new hpc =>
          obtain rfl := Option.some.inj h
          exact .fed hpc
      · exact absurd h (by simp)

/-- **What one step of the system does**: it is one of the transitions. One case for each
action. -/
theorem transition_of_step {s s' : RefreshSystem} {a : RefreshAction}
    (h : s.step a = some s') : s.Transition a s' := by
  cases a with
  | exit =>
      rw [step] at h
      split at h
      · obtain rfl := Option.some.inj h
        exact .exited
      · exact absurd h (by simp)
  | start i a => exact transition_of_stepStart h

/-! ### Where a handle is held -/

/-- Where the calls stand after one of them has been moved on. -/
theorem starts_goto (s : RefreshSystem) (i : ℕ) (pc : RefreshPc) (j : ℕ) :
    (s.goto i pc).starts j = if j = i then pc else s.starts j :=
  Function.update_apply s.starts i pc j

/-- A call that moves on leaves the sessions. -/
@[simp] theorem sessions_goto (s : RefreshSystem) (i : ℕ) (pc : RefreshPc) :
    (s.goto i pc).sessions = s.sessions := rfl

/-- A new session leaves the calls where they stand. -/
@[simp] theorem starts_spawnSession (s : RefreshSystem) : s.spawnSession.starts = s.starts := rfl

/-- A new session is one more. -/
@[simp] theorem length_spawnSession (s : RefreshSystem) :
    s.spawnSession.sessions.length = s.sessions.length + 1 := by
  rw [spawnSession, List.length_append, List.length_singleton]

/-- The sessions are those there were, and the new one. -/
theorem getElem_spawnSession {s : RefreshSystem} {h : ℕ} {x : LogSession}
    (hx : s.spawnSession.sessions[h]? = some x) :
    s.sessions[h]? = some x ∨
      h = s.sessions.length ∧ x = { stopped := false, feeding := false } := by
  rw [spawnSession] at hx
  rcases Nat.lt_trichotomy h s.sessions.length with hlt | rfl | hgt
  · exact .inl (by rwa [List.getElem?_append_left hlt] at hx)
  · exact .inr ⟨rfl, by simpa using hx.symm⟩
  · exact absurd hx (by rw [List.getElem?_eq_none (by simp; omega)]; simp)

/-- The session of a handle is stopped, and no other one. -/
theorem getElem_stopSession (s : RefreshSystem) (old h : ℕ) :
    (s.stopSession old).sessions[h]? =
      s.sessions[h]?.map fun x => if old = h then { x with stopped := true } else x := by
  rw [stopSession, List.getElem?_modify]
  rfl

/-- The session of a handle feeds the consumers if there are any; no other one changes. -/
theorem getElem_feedConsumers (s : RefreshSystem) (new h : ℕ) :
    (s.feedConsumers new).sessions[h]? =
      s.sessions[h]?.map fun x =>
        if new = h then { x with feeding := x.feeding || s.hasConsumers } else x := by
  rw [feedConsumers, List.getElem?_modify]
  rfl

/-- The handle is in `log_source`, or a call will stop it or store it. -/
def Held (s : RefreshSystem) (handle : ℕ) : Prop :=
  s.logSource = some handle ∨ (∃ j, s.starts j = .stopHandle (some handle)) ∨
    ∃ j, s.starts j = .storeHandle handle

/-- Every session that is not stopped is held. -/
def Kept (s : RefreshSystem) : Prop :=
  s.hasConsumers = true → ∀ (h : ℕ) (x : LogSession), s.sessions[h]? = some x → x.stopped = false →
    s.Held h

/-- The handle in `log_source` is that of a session. A handle that a call will store is new:
it is not in `log_source`. With consumers, every session feeds them or is about to; without
them none does. -/
structure RefreshInv (s : RefreshSystem) : Prop where
  source : ∀ h, s.logSource = some h → h < s.sessions.length
  new : ∀ i h, s.starts i = .storeHandle h → h < s.sessions.length ∧ s.logSource ≠ some h
  unique : ∀ i j h, s.starts i = .storeHandle h → s.starts j = .storeHandle h → i = j
  feeding : s.hasConsumers = true → ∀ (h : ℕ) (x : LogSession), s.sessions[h]? = some x →
    x.feeding = true ∨ (∃ j, s.starts j = .storeHandle h) ∨ ∃ j, s.starts j = .spawnConsumers h
  idle : s.hasConsumers = false → ∀ (h : ℕ) (x : LogSession), s.sessions[h]? = some x →
    x.feeding = false

/-- **The invariant holds of a new container**, with a session or without. -/
theorem refreshInv_init (hasConsumers : Bool) (session : Option Bool) :
    (init hasConsumers session).RefreshInv := by
  refine ⟨?_, fun i h hpc => absurd hpc (by simp [init]),
    fun i j h hpc => absurd hpc (by simp [init]), fun hconsumers h x hx => .inl ?_, ?_⟩
  · intro h hsource
    cases session with
    | none => exact absurd hsource (by simp [init])
    | some stopped =>
        obtain rfl : 0 = h := by simpa [init] using hsource
        exact Nat.zero_lt_one
  · obtain ⟨stopped, -, rfl⟩ := List.mem_map.mp (List.mem_of_getElem? hx)
    exact hconsumers
  · intro hconsumers h x hx
    obtain ⟨stopped, -, rfl⟩ := List.mem_map.mp (List.mem_of_getElem? hx)
    exact hconsumers

/-- The session of a new container is held by `log_source`. -/
theorem kept_init (hasConsumers : Bool) (session : Option Bool) :
    (init hasConsumers session).Kept := by
  intro _ h x hx _
  cases session with
  | none => exact absurd hx (by simp [init])
  | some stopped =>
      obtain rfl : h = 0 := by
        by_contra hne
        rw [init, List.getElem?_eq_none (by simp; omega)] at hx
        exact absurd hx (by simp)
      exact .inl rfl

/-- A call that neither stores nor feeds a handle may go anywhere but in front of a store.
The handles that wait to be stored, or to be fed, are those of other calls. -/
theorem RefreshInv.move {s : RefreshSystem} (h : s.RefreshInv) {i : ℕ} {pc : RefreshPc}
    (hstore : ∀ new, s.starts i ≠ .storeHandle new)
    (hfeed : ∀ new, s.starts i ≠ .spawnConsumers new) (hpc : ∀ new, pc ≠ .storeHandle new) :
    (s.goto i pc).RefreshInv := by
  have hnew : ∀ j new, (s.goto i pc).starts j = .storeHandle new →
      s.starts j = .storeHandle new := by
    intro j new hj
    rw [starts_goto] at hj
    split at hj
    · exact absurd hj (hpc new)
    · exact hj
  have hother : ∀ j, j ≠ i → (s.goto i pc).starts j = s.starts j := fun j hne => by
    rw [starts_goto, if_neg hne]
  refine ⟨h.source, fun j new hj => h.new j new (hnew j new hj),
    fun j k new hj hk => h.unique j k new (hnew j new hj) (hnew k new hk), ?_, h.idle⟩
  intro hconsumers handle x hx
  rcases h.feeding hconsumers handle x hx with hfeeding | ⟨j, hj⟩ | ⟨j, hj⟩
  · exact .inl hfeeding
  · refine .inr (.inl ⟨j, ?_⟩)
    rw [hother j (by rintro rfl; exact hstore handle hj)]
    exact hj
  · refine .inr (.inr ⟨j, ?_⟩)
    rw [hother j (by rintro rfl; exact hfeed handle hj)]
    exact hj

/-- A session that is stopped keeps its place and its consumers. Only its mark changes. -/
theorem RefreshInv.stopSession {s : RefreshSystem} (h : s.RefreshInv) (old : ℕ) :
    (s.stopSession old).RefreshInv := by
  have hlen : (s.stopSession old).sessions.length = s.sessions.length := List.length_modify ..
  have hfeeding : ∀ (handle : ℕ) (x : LogSession),
      (s.stopSession old).sessions[handle]? = some x →
      ∃ y : LogSession, s.sessions[handle]? = some y ∧ y.feeding = x.feeding := by
    intro handle x hx
    rw [getElem_stopSession, Option.map_eq_some_iff] at hx
    obtain ⟨y, hy, rfl⟩ := hx
    exact ⟨y, hy, by split <;> rfl⟩
  refine ⟨fun handle hsource => hlen ▸ h.source handle hsource,
    fun i new hi => ⟨hlen ▸ (h.new i new hi).1, (h.new i new hi).2⟩, h.unique, ?_, ?_⟩
  · intro hconsumers handle x hx
    obtain ⟨y, hy, heq⟩ := hfeeding handle x hx
    exact heq ▸ h.feeding hconsumers handle y hy
  · intro hconsumers handle x hx
    obtain ⟨y, hy, heq⟩ := hfeeding handle x hx
    exact heq ▸ h.idle hconsumers handle y hy

/-- A new session, to be stored by a call that has held no handle. Its handle is one above
those that exist, so no other call has it. -/
theorem RefreshInv.spawnSession {s : RefreshSystem} (h : s.RefreshInv) {i : ℕ}
    (hinert : (s.starts i).Inert) :
    (s.spawnSession.goto i (.storeHandle s.sessions.length)).RefreshInv := by
  have hpcs : ∀ j new, (s.spawnSession.goto i (.storeHandle s.sessions.length)).starts j =
      .storeHandle new → j = i ∧ new = s.sessions.length ∨ s.starts j = .storeHandle new := by
    intro j new hj
    rw [starts_goto] at hj
    split at hj
    · next heq => exact .inl ⟨heq, (RefreshPc.storeHandle.inj hj).symm⟩
    · exact .inr hj
  have hother : ∀ j, ¬ (s.starts j).Inert →
      (s.spawnSession.goto i (.storeHandle s.sessions.length)).starts j = s.starts j := by
    intro j hj
    rw [starts_goto, if_neg (by rintro rfl; exact hj hinert), starts_spawnSession]
  refine ⟨?_, ?_, ?_, ?_, ?_⟩
  · intro handle hsource
    rw [sessions_goto, length_spawnSession]
    exact Nat.lt_succ_of_lt (h.source handle hsource)
  · intro j new hj
    rw [sessions_goto, length_spawnSession]
    rcases hpcs j new hj with ⟨-, rfl⟩ | hj
    · exact ⟨Nat.lt_succ_self _, fun hsource => absurd (h.source _ hsource) (Nat.lt_irrefl _)⟩
    · exact ⟨Nat.lt_succ_of_lt (h.new j new hj).1, (h.new j new hj).2⟩
  · intro j k new hj hk
    rcases hpcs j new hj with ⟨hj', hnew⟩ | hj' <;> rcases hpcs k new hk with ⟨hk', hnew'⟩ | hk'
    · exact hj'.trans hk'.symm
    · exact absurd (hnew ▸ (h.new k new hk').1) (Nat.lt_irrefl _)
    · exact absurd (hnew' ▸ (h.new j new hj').1) (Nat.lt_irrefl _)
    · exact h.unique j k new hj' hk'
  · intro hconsumers handle x hx
    rcases getElem_spawnSession hx with hx | ⟨rfl, rfl⟩
    · rcases h.feeding hconsumers handle x hx with hfeeding | ⟨j, hj⟩ | ⟨j, hj⟩
      · exact .inl hfeeding
      · exact .inr (.inl ⟨j, (hother j (by rw [hj]; exact not_false)).trans hj⟩)
      · exact .inr (.inr ⟨j, (hother j (by rw [hj]; exact not_false)).trans hj⟩)
    · exact .inr (.inl ⟨i, by rw [starts_goto, if_pos rfl]⟩)
  · intro hconsumers handle x hx
    rcases getElem_spawnSession hx with hx | ⟨-, rfl⟩
    · exact h.idle hconsumers handle x hx
    · rfl

/-- The handle stored is no longer new, and its session will feed the consumers. The same
call goes on to feed it. -/
theorem RefreshInv.store {s : RefreshSystem} (h : s.RefreshInv) {i new : ℕ}
    (hi : s.starts i = .storeHandle new) :
    (goto { s with logSource := some new } i (.spawnConsumers new)).RefreshInv := by
  have hpcs : ∀ j handle, (s.goto i (.spawnConsumers new)).starts j = .storeHandle handle →
      j ≠ i ∧ s.starts j = .storeHandle handle := by
    intro j handle hj
    rw [starts_goto] at hj
    split at hj
    · exact absurd hj (by simp)
    · next hne => exact ⟨hne, hj⟩
  refine ⟨?_, ?_,
    fun j k handle hj hk => h.unique j k handle (hpcs j handle hj).2 (hpcs k handle hk).2, ?_,
    h.idle⟩
  · intro handle hsource
    obtain rfl : new = handle := Option.some.inj hsource
    exact (h.new i new hi).1
  · intro j handle hj
    obtain ⟨hne, hj⟩ := hpcs j handle hj
    refine ⟨(h.new j handle hj).1, fun hsource => hne ?_⟩
    obtain rfl : new = handle := Option.some.inj hsource
    exact h.unique j i new hj hi
  · intro hconsumers handle x hx
    rcases h.feeding hconsumers handle x hx with hfeeding | ⟨j, hj⟩ | ⟨j, hj⟩
    · exact .inl hfeeding
    · by_cases heq : j = i
      · subst heq
        obtain rfl : new = handle := RefreshPc.storeHandle.inj (hi.symm.trans hj)
        exact .inr (.inr ⟨j, by rw [starts_goto, if_pos rfl]⟩)
      · exact .inr (.inl ⟨j, by rw [starts_goto, if_neg heq]; exact hj⟩)
    · refine .inr (.inr ⟨j, ?_⟩)
      rw [starts_goto, if_neg (by rintro rfl; exact absurd (hi.symm.trans hj) (by simp))]
      exact hj

/-- The session fed is the one of the call's handle. The other sessions keep whoever is to
feed them. -/
theorem RefreshInv.feed {s : RefreshSystem} (h : s.RefreshInv) {i new : ℕ}
    (hi : s.starts i = .spawnConsumers new) :
    ((s.feedConsumers new).goto i (.returned true)).RefreshInv := by
  have hlen : (s.feedConsumers new).sessions.length = s.sessions.length := List.length_modify ..
  have hpcs : ∀ j handle, ((s.feedConsumers new).goto i (.returned true)).starts j =
      .storeHandle handle → s.starts j = .storeHandle handle := by
    intro j handle hj
    rw [starts_goto] at hj
    split at hj
    · exact absurd hj (by simp)
    · exact hj
  refine ⟨fun handle hsource => hlen ▸ h.source handle hsource,
    fun j handle hj => hlen ▸ h.new j handle (hpcs j handle hj),
    fun j k handle hj hk => h.unique j k handle (hpcs j handle hj) (hpcs k handle hk), ?_, ?_⟩
  · intro hconsumers handle x hx
    have hconsumers' : s.hasConsumers = true := hconsumers
    obtain ⟨y, hy, rfl⟩ := Option.map_eq_some_iff.mp
      ((getElem_feedConsumers s new handle).symm.trans hx)
    split
    · exact .inl (by simp [hconsumers'])
    · next hne =>
        rcases h.feeding hconsumers handle y hy with hfeeding | ⟨j, hj⟩ | ⟨j, hj⟩
        · exact .inl hfeeding
        · refine .inr (.inl ⟨j, ?_⟩)
          rw [starts_goto, if_neg (by rintro rfl; exact absurd (hi.symm.trans hj) (by simp))]
          exact hj
        · refine .inr (.inr ⟨j, ?_⟩)
          rw [starts_goto, if_neg (by
            rintro rfl
            exact hne (RefreshPc.spawnConsumers.inj (hi.symm.trans hj)))]
          exact hj
  · intro hconsumers handle x hx
    have hconsumers' : s.hasConsumers = false := hconsumers
    obtain ⟨y, hy, rfl⟩ := Option.map_eq_some_iff.mp
      ((getElem_feedConsumers s new handle).symm.trans hx)
    have hidle := h.idle hconsumers handle y hy
    split <;> simp [hidle, hconsumers']

/-- **The step lemma**: every transition keeps the invariant; a handle is new when it is
spawned, and only then may a call store it. -/
theorem RefreshInv.of_step {s s' : RefreshSystem} {a : RefreshAction} (h : s.RefreshInv)
    (hs : s.step a = some s') : s'.RefreshInv := by
  have hhandle : ∀ {i}, (s.starts i).Inert → (∀ new, s.starts i ≠ .storeHandle new) ∧
      ∀ new, s.starts i ≠ .spawnConsumers new := by
    intro i hinert
    constructor
    · intro new hi
      rw [hi] at hinert
      exact hinert
    · intro new hi
      rw [hi] at hinert
      exact hinert
  cases transition_of_step hs with
  | exited => exact ⟨h.source, h.new, h.unique, h.feeding, h.idle⟩
  | @moved i a running pc hne hinert hpc =>
      have hrunning : RefreshInv { s with running } :=
        ⟨h.source, h.new, h.unique, h.feeding, h.idle⟩
      refine hrunning.move (hhandle hinert).1 (hhandle hinert).2 ?_
      intro new hnew
      rw [hnew] at hpc
      exact hpc
  | cloned hinert =>
      exact h.move (hhandle hinert).1 (hhandle hinert).2 (fun new => by simp)
  | @stopped i old hi =>
      exact (h.stopSession old).move (fun new hnew => absurd (hi.symm.trans hnew) (by simp))
        (fun new hnew => absurd (hi.symm.trans hnew) (by simp)) (fun new => by simp)
  | spawned hinert => exact h.spawnSession hinert
  | stored hi => exact h.store hi
  | fed hi => exact h.feed hi

/-! ### Which sessions are lost -/

/-- A call that is moved on gives up no handle but the one it was to stop or store. -/
theorem Held.goto {s : RefreshSystem} {i h : ℕ} (hheld : s.Held h)
    (hstop : s.starts i ≠ .stopHandle (some h)) (hstore : s.starts i ≠ .storeHandle h)
    (pc : RefreshPc) : (s.goto i pc).Held h := by
  have hother : ∀ j, j ≠ i → (s.goto i pc).starts j = s.starts j := fun j hne => by
    rw [starts_goto, if_neg hne]
  rcases hheld with hsource | ⟨j, hj⟩ | ⟨j, hj⟩
  · exact .inl hsource
  · exact .inr (.inl ⟨j, (hother j (by rintro rfl; exact hstop hj)).trans hj⟩)
  · exact .inr (.inr ⟨j, (hother j (by rintro rfl; exact hstore hj)).trans hj⟩)

/-- Nor does it take up any but the one it is to stop or store now. -/
theorem held_of_goto {s : RefreshSystem} {i h : ℕ} {pc : RefreshPc} (hheld : (s.goto i pc).Held h)
    (hstop : pc = .stopHandle (some h) → s.Held h) (hstore : pc = .storeHandle h → s.Held h) :
    s.Held h := by
  rcases hheld with hsource | ⟨j, hj⟩ | ⟨j, hj⟩
  · exact .inl hsource
  · rw [starts_goto] at hj
    split at hj
    · exact hstop hj
    · exact .inr (.inl ⟨j, hj⟩)
  · rw [starts_goto] at hj
    split at hj
    · exact hstore hj
    · exact .inr (.inr ⟨j, hj⟩)

/-- A call in front of a step without a handle holds none. -/
theorem ne_of_inert {s : RefreshSystem} {i : ℕ} (hinert : (s.starts i).Inert) (h : ℕ) :
    s.starts i ≠ .stopHandle (some h) ∧ s.starts i ≠ .storeHandle h := by
  constructor
  · intro hi
    rw [hi] at hinert
    exact hinert
  · intro hi
    rw [hi] at hinert
    exact hinert

/-- A session that is not stopped after the stop of `old` is another one. -/
theorem of_stopSession {s : RefreshSystem} {old h : ℕ} {x : LogSession}
    (hx : (s.stopSession old).sessions[h]? = some x) (hstopped : x.stopped = false) :
    old ≠ h ∧ s.sessions[h]? = some x := by
  rw [getElem_stopSession, Option.map_eq_some_iff] at hx
  obtain ⟨y, hy, rfl⟩ := hx
  split at hstopped
  · exact absurd hstopped (by simp)
  · next hne => exact ⟨hne, by rw [if_neg hne]; exact hy⟩

/-- Feeding a session stops none. -/
theorem of_feedConsumers {s : RefreshSystem} {new h : ℕ} {x : LogSession}
    (hx : (s.feedConsumers new).sessions[h]? = some x) :
    ∃ y, s.sessions[h]? = some y ∧ y.stopped = x.stopped := by
  rw [getElem_feedConsumers, Option.map_eq_some_iff] at hx
  obtain ⟨y, hy, rfl⟩ := hx
  exact ⟨y, hy, by split <;> rfl⟩

/-- Storing a handle keeps every session held exactly if it replaces none that nobody has
stopped or is about to stop. -/
theorem kept_store_iff {s : RefreshSystem} (hinv : s.RefreshInv) (hp : s.Kept) {i new : ℕ}
    (hi : s.starts i = .storeHandle new) :
    (goto { s with logSource := some new } i (.spawnConsumers new)).Kept ↔
      s.Replaces (.start i .storeHandle) := by
  constructor
  · intro h
    rw [Replaces]
    cases hconsumers : s.hasConsumers with
    | false => exact .inl rfl
    | true =>
        refine .inr ?_
        intro old hold
        obtain ⟨x, hx⟩ : ∃ x, s.sessions[old]? = some x :=
          ⟨_, List.getElem?_eq_getElem (hinv.source old hold)⟩
        cases hstopped : x.stopped with
        | true => exact .inl ⟨x, hx, hstopped⟩
        | false =>
            right
            rcases h hconsumers old x hx hstopped with hsource | ⟨j, hj⟩ | ⟨j, hj⟩
            · obtain rfl : new = old := Option.some.inj hsource
              exact absurd hold (hinv.new i new hi).2
            · rw [starts_goto] at hj
              split at hj
              · exact absurd hj (by simp)
              · exact ⟨j, hj⟩
            · rw [starts_goto] at hj
              split at hj
              · exact absurd hj (by simp)
              · exact absurd hold (hinv.new j old hj).2
  · intro h hconsumers old x hx hstopped
    have hother : ∀ j, j ≠ i →
        (goto { s with logSource := some new } i (.spawnConsumers new)).starts j = s.starts j :=
      fun j hne => by rw [starts_goto, if_neg hne]
    rcases hp hconsumers old x hx hstopped with hsource | ⟨j, hj⟩ | ⟨j, hj⟩
    · rcases h with hnone | h
      · exact absurd (hnone.symm.trans hconsumers) (by simp)
      · rcases h old hsource with ⟨y, hy, hyes⟩ | ⟨j, hj⟩
        · obtain rfl : x = y := Option.some.inj (hx.symm.trans hy)
          exact absurd (hyes.symm.trans hstopped) (by simp)
        · refine .inr (.inl ⟨j, (hother j ?_).trans hj⟩)
          rintro rfl
          exact absurd (hi.symm.trans hj) (by simp)
    · refine .inr (.inl ⟨j, (hother j ?_).trans hj⟩)
      rintro rfl
      exact absurd (hi.symm.trans hj) (by simp)
    · by_cases hji : j = i
      · subst hji
        exact .inl (congrArg some (RefreshPc.storeHandle.inj (hi.symm.trans hj)))
      · exact .inr (.inr ⟨j, (hother j hji).trans hj⟩)

/-- **The step lemma**: from a state in which every session is stopped or held, a step leads
to another one exactly if it stores no handle over that of a session which nobody has stopped
or is about to stop. -/
theorem kept_step_iff {s s' : RefreshSystem} {a : RefreshAction} (hinv : s.RefreshInv)
    (hp : s.Kept) (hs : s.step a = some s') : s'.Kept ↔ s.Replaces a := by
  cases transition_of_step hs with
  | exited => exact iff_of_true hp trivial
  | @moved i a running pc hne hinert hpc =>
      refine iff_of_true ?_ ?_
      · intro hconsumers h x hx hstopped
        have hheld : Held { s with running } h := hp hconsumers h x hx hstopped
        exact hheld.goto (ne_of_inert hinert h).1 (ne_of_inert hinert h).2 pc
      · cases a with
        | storeHandle => exact absurd rfl hne
        | _ => trivial
  | cloned hinert =>
      refine iff_of_true ?_ trivial
      intro hconsumers h x hx hstopped
      exact (hp hconsumers h x hx hstopped).goto (ne_of_inert hinert h).1
        (ne_of_inert hinert h).2 _
  | @stopped i old hi =>
      refine iff_of_true ?_ trivial
      intro hconsumers h x hx hstopped
      obtain ⟨hne, hx⟩ := of_stopSession hx hstopped
      have hheld : (s.stopSession old).Held h := hp hconsumers h x hx hstopped
      refine hheld.goto (fun hold => hne ?_) (fun hnew => absurd (hi.symm.trans hnew) (by simp)) _
      exact Option.some.inj (RefreshPc.stopHandle.inj (hi.symm.trans hold))
  | @spawned i hinert =>
      refine iff_of_true ?_ trivial
      intro hconsumers h x hx hstopped
      rcases getElem_spawnSession hx with hx | ⟨rfl, -⟩
      · have hheld : s.spawnSession.Held h := hp hconsumers h x hx hstopped
        exact hheld.goto (ne_of_inert hinert h).1 (ne_of_inert hinert h).2 _
      · exact .inr (.inr ⟨i, by rw [starts_goto, if_pos rfl]⟩)
  | stored hi => exact kept_store_iff hinv hp hi
  | @fed i new hi =>
      refine iff_of_true ?_ trivial
      intro hconsumers h x hx hstopped
      obtain ⟨y, hy, heq⟩ := of_feedConsumers hx
      have hheld : (s.feedConsumers new).Held h := hp hconsumers h y hy (heq.trans hstopped)
      exact hheld.goto (fun hold => absurd (hi.symm.trans hold) (by simp))
        (fun hnew => absurd (hi.symm.trans hnew) (by simp)) _

/-- **A lost session stays lost**: no step makes a handle known again. One case for each
transition: a session that is held behind the step was held before, by `log_source`, by
the call that stops it, or by the one that stores it. -/
theorem kept_of_step {s s' : RefreshSystem} {a : RefreshAction} (hs : s.step a = some s')
    (h' : s'.Kept) : s.Kept := by
  intro hconsumers h x hx hstopped
  cases transition_of_step hs with
  | exited => exact h' hconsumers h x hx hstopped
  | @moved i a running pc hne hinert hpc =>
      have hheld : Held { s with running } h := by
        refine held_of_goto (h' hconsumers h x hx hstopped) ?_ ?_
        · intro hold
          rw [hold] at hpc
          exact hpc.elim
        · intro hnew
          rw [hnew] at hpc
          exact hpc.elim
      exact hheld
  | cloned hinert =>
      refine held_of_goto (h' hconsumers h x hx hstopped) (fun hold => .inl ?_)
        (fun hnew => absurd hnew (by simp))
      exact RefreshPc.stopHandle.inj hold
  | @stopped i old hi =>
      by_cases hne : old = h
      · exact .inr (.inl ⟨i, hne ▸ hi⟩)
      · have hx' : (s.stopSession old).sessions[h]? = some x := by
          rw [getElem_stopSession, hx, Option.map_some, if_neg hne]
        have hheld : (s.stopSession old).Held h :=
          held_of_goto (h' hconsumers h x hx' hstopped) (fun hold => absurd hold (by simp))
            (fun hnew => absurd hnew (by simp))
        exact hheld
  | @spawned i hinert =>
      have hlt : h < s.sessions.length := (List.getElem?_eq_some_iff.mp hx).1
      have hx' : s.spawnSession.sessions[h]? = some x := by
        rw [spawnSession, List.getElem?_append_left hlt]
        exact hx
      have hheld : s.spawnSession.Held h := by
        refine held_of_goto (h' hconsumers h x hx' hstopped) (fun hold => absurd hold (by simp)) ?_
        intro hnew
        have heq := RefreshPc.storeHandle.inj hnew
        omega
      exact hheld
  | @stored i new hi =>
      rcases h' hconsumers h x hx hstopped with hsource | ⟨j, hj⟩ | ⟨j, hj⟩
      · exact .inr (.inr ⟨i, (Option.some.inj hsource) ▸ hi⟩)
      · rw [starts_goto] at hj
        split at hj
        · exact absurd hj (by simp)
        · exact .inr (.inl ⟨j, hj⟩)
      · rw [starts_goto] at hj
        split at hj
        · exact absurd hj (by simp)
        · exact .inr (.inr ⟨j, hj⟩)
  | @fed i new hi =>
      have hx' : ∃ y, (s.feedConsumers new).sessions[h]? = some y ∧ y.stopped = false := by
        rw [getElem_feedConsumers, hx, Option.map_some]
        refine ⟨_, rfl, ?_⟩
        split <;> exact hstopped
      obtain ⟨y, hy, hstopped'⟩ := hx'
      have hheld : (s.feedConsumers new).Held h :=
        held_of_goto (h' hconsumers h y hy hstopped') (fun hold => absurd hold (by simp))
          (fun hnew => absurd hnew (by simp))
      exact hheld

/-- Between the calls a session is held only in `log_source`. -/
theorem held_iff_of_quiescent {s : RefreshSystem} (h : s.Quiescent) (handle : ℕ) :
    s.Held handle ↔ s.logSource = some handle := by
  refine ⟨?_, .inl⟩
  intro hheld
  rcases hheld with hsource | ⟨j, hj⟩ | ⟨j, hj⟩
  · exact hsource
  · rcases h j with hidle | ⟨started, hreturned⟩
    · exact absurd (hidle.symm.trans hj) (by simp)
    · exact absurd (hreturned.symm.trans hj) (by simp)
  · rcases h j with hidle | ⟨started, hreturned⟩
    · exact absurd (hidle.symm.trans hj) (by simp)
    · exact absurd (hreturned.symm.trans hj) (by simp)

/-- **Between the calls** at most one session is live, and in `log_source`, exactly if every
session is stopped or held. -/
theorem oneLive_iff_kept {s : RefreshSystem} (hinv : s.RefreshInv) (hquiet : s.Quiescent) :
    s.OneLive ↔ s.Kept := by
  constructor
  · intro h hconsumers handle x hx hstopped
    have hfeeding : x.feeding = true := by
      rcases hinv.feeding hconsumers handle x hx with hfeeding | ⟨j, hj⟩ | ⟨j, hj⟩
      · exact hfeeding
      · rcases hquiet j with hidle | ⟨started, hreturned⟩
        · exact absurd (hidle.symm.trans hj) (by simp)
        · exact absurd (hreturned.symm.trans hj) (by simp)
      · rcases hquiet j with hidle | ⟨started, hreturned⟩
        · exact absurd (hidle.symm.trans hj) (by simp)
        · exact absurd (hreturned.symm.trans hj) (by simp)
    exact .inl (h.2 handle ⟨x, hx, hfeeding, hstopped⟩)
  · intro h
    have hsource : ∀ handle, s.Live handle → s.logSource = some handle := by
      rintro handle ⟨x, hx, hfeeding, hstopped⟩
      cases hconsumers : s.hasConsumers with
      | false =>
          rw [hinv.idle hconsumers handle x hx] at hfeeding
          exact absurd hfeeding (by simp)
      | true => exact (held_iff_of_quiescent hquiet handle).mp (h hconsumers handle x hx hstopped)
    exact ⟨fun h₁ h₂ hlive₁ hlive₂ =>
      Option.some.inj ((hsource h₁ hlive₁).symm.trans (hsource h₂ hlive₂)), hsource⟩

/-- **One live session, exactly while no session is lost.** In every run of overlapping calls
whose steps store no handle over that of a session which nobody has stopped or is about to
stop, every state between the calls has at most one session that feeds the consumers and is
not stopped, the one in `log_source`; and a run that ends between the calls has this property
only if all its steps meet the condition. -/
theorem one_live_session_iff (hasConsumers : Bool) (session : Option Bool)
    (acts : List RefreshAction) (s : RefreshSystem)
    (hrun : Runs.run step (init hasConsumers session) acts = some s) :
    (Runs.StepsMeet step (init hasConsumers session) acts Replaces →
      Runs.Always step (init hasConsumers session) acts fun t => t.Quiescent → t.OneLive) ∧
    (s.Quiescent →
      (Runs.Always step (init hasConsumers session) acts fun t => t.Quiescent → t.OneLive) →
      Runs.StepsMeet step (init hasConsumers session) acts Replaces) := by
  have hinv : Runs.Always step (init hasConsumers session) acts RefreshInv :=
    Runs.always_of_invariant (fun _ _ _ h hs => h.of_step hs)
      (refreshInv_init hasConsumers session) acts
  have hgood : ∀ (t : RefreshSystem) (a : RefreshAction) (t' : RefreshSystem), t.RefreshInv →
      t.Kept → t.step a = some t' → (t'.Kept ↔ t.Replaces a) :=
    fun _ _ _ hi hp hs => kept_step_iff hi hp hs
  have hkept : Runs.Always step (init hasConsumers session) acts Kept ↔
      Runs.StepsMeet step (init hasConsumers session) acts Replaces :=
    Runs.always_iff_stepsMeet hgood hinv (kept_init hasConsumers session) hrun
  refine ⟨?_, fun hquiet halways => hkept.mp ?_⟩
  · intro hmeet pre post t hsplit hpre hquiet
    exact (oneLive_iff_kept (hinv pre post t hsplit hpre) hquiet).mpr
      (hkept.mpr hmeet pre post t hsplit hpre)
  · refine Runs.always_of_final (fun _ _ _ hs => kept_of_step hs) hrun ?_
    exact (oneLive_iff_kept (hinv.final hrun) hquiet).mp (halways.final hrun hquiet)

/-- Two calls that both find the container stopped and both clone the first handle: each
spawns a session, and the second one is stored over the first. -/
def overlappingStarts : List RefreshAction :=
  [.start 0 .call, .start 0 (.containerState true), .start 0 .cloneHandle,
    .start 1 .call, .start 1 (.containerState true), .start 1 .cloneHandle,
    .start 0 .stopHandle, .start 0 (.startContainer true), .start 0 (.spawnLogSession true),
    .start 1 .stopHandle, .start 1 (.startContainer true), .start 1 (.spawnLogSession true),
    .start 0 .storeHandle, .start 0 .spawnConsumers,
    .start 1 .storeHandle, .start 1 .spawnConsumers]

/-- Both sessions deliver to the consumers when the calls have returned, and the first one
cannot be stopped any more. -/
theorem two_live_sessions :
    ∃ s, Runs.run step (init true (some false)) overlappingStarts = some s ∧ s.Quiescent ∧
      s.Live 1 ∧ s.Live 2 ∧ s.logSource = some 2 ∧ ¬ s.OneLive := by
  refine ⟨_, rfl, ?_, ⟨_, rfl, rfl, rfl⟩, ⟨_, rfl, rfl, rfl⟩, rfl, ?_⟩
  · intro i
    match i with
    | 0 => exact .inr ⟨true, rfl⟩
    | 1 => exact .inr ⟨true, rfl⟩
    | _ + 2 => exact .inl rfl
  · intro h
    exact absurd (h.2 1 ⟨_, rfl, rfl, rfl⟩) (by decide)

/-- Two calls of which the second one clones the handle that the first one has stored. -/
def handedOverStarts : List RefreshAction :=
  [.start 0 .call, .start 0 (.containerState true), .start 1 .call,
    .start 1 (.containerState true), .start 0 .cloneHandle, .start 0 .stopHandle,
    .start 0 (.startContainer true), .start 0 (.spawnLogSession true), .start 0 .storeHandle,
    .start 0 .spawnConsumers, .start 1 .cloneHandle, .start 1 .stopHandle,
    .start 1 (.startContainer true), .start 1 (.spawnLogSession true), .start 1 .storeHandle,
    .start 1 .spawnConsumers]

/-- Both handles are replaced after they have been stopped. -/
theorem stepsMeet_handedOverStarts :
    Runs.StepsMeet step (init true (some false)) handedOverStarts Replaces := by
  iterate 8 refine (Runs.stepsMeet_cons rfl).mpr ⟨trivial, ?_⟩
  refine (Runs.stepsMeet_cons rfl).mpr ⟨.inr fun h hsource => .inl ?_, ?_⟩
  · obtain rfl : 0 = h := Option.some.inj hsource
    exact ⟨_, rfl, rfl⟩
  iterate 5 refine (Runs.stepsMeet_cons rfl).mpr ⟨trivial, ?_⟩
  refine (Runs.stepsMeet_cons rfl).mpr ⟨.inr fun h hsource => .inl ?_, ?_⟩
  · obtain rfl : 1 = h := Option.some.inj hsource
    exact ⟨_, rfl, rfl⟩
  exact (Runs.stepsMeet_cons rfl).mpr ⟨trivial, Runs.stepsMeet_nil⟩

/-- The law at two calls one of which hands its session over to the other. -/
theorem one_live_session_iff_handedOver :
    Runs.Always step (init true (some false)) handedOverStarts fun t =>
      t.Quiescent → t.OneLive :=
  (one_live_session_iff true (some false) handedOverStarts _ rfl).1 stepsMeet_handedOverStarts

end RefreshSystem

end ContainerRs
