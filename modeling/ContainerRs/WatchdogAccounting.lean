import ContainerRs.Watchdog

/-!
# The Accounts of the Watchdog

A call of `register` (watchdog.rs) returns early in several places, spawns a reaper in two
and writes in two, and all of them share one slot, one counter of failures and one flag.
Here a call is one function on these three statics: the outcome of each spawn and of each
write is given to it, and what it attempts, writes and warns of is kept in a log.

## Main results

* `register_cases`: a call writes its id, or is charged one failure, or finds none left.
* `Accounted.register`: the invariant of the three statics.
* `register_accounting`: over every sequence of calls the failures are counted exactly, no
  reaper is spawned once they are used up, and the watchdog says so once.
* `Watchdog.watchdog_performs_calls`: the small-step watchdog performs such calls.
-/

namespace ContainerRs

/-- What a call attempts and reports: the refusal of an id, an attempt to spawn a reaper
(with the failures counted before it), a written id, and the three warnings. -/
inductive WatchdogEvent
  | refusedId
  | spawnAttempt (failures : ℕ) (ok : Bool)
  | wrote (id : Bytes)
  | pipeClosed
  | diedAfterRespawn
  | exhausted
  deriving DecidableEq, Repr

namespace WatchdogEvent

/-- The event is an attempt to spawn a reaper. -/
def isSpawnAttempt : WatchdogEvent → Bool
  | spawnAttempt _ _ => true
  | _ => false

/-- The id the event reports as written. -/
def writtenId : WatchdogEvent → Option Bytes
  | wrote id => some id
  | _ => none

end WatchdogEvent

/-- What the system decides in one call: the first spawn and write, and the second ones. -/
structure RegisterOutcomes where
  spawn : Bool
  write : Bool
  respawn : Bool
  rewrite : Bool
  deriving DecidableEq, Repr

/-- A call of `register`, with what happens in it. -/
structure RegisterCall where
  id : Bytes
  outcomes : RegisterOutcomes
  deriving DecidableEq, Repr

/-- The statics: whether the input of a reaper is held, `SPAWN_FAILURES` and
`EXHAUSTED_WARNED`; and the log of all calls. -/
structure WatchdogStatics where
  reaper : Bool
  spawnFailures : ℕ
  exhaustedWarned : Bool
  events : List WatchdogEvent
  deriving DecidableEq, Repr

namespace WatchdogStatics

/-- Before the first call. -/
def init : WatchdogStatics :=
  { reaper := false, spawnFailures := 0, exhaustedWarned := false, events := [] }

/-- Add to the log. -/
def emit (s : WatchdogStatics) (e : WatchdogEvent) : WatchdogStatics :=
  { s with events := s.events ++ [e] }

/-- Warn that the failures are used up, unless that has been said. -/
def warnExhaustedOnce (s : WatchdogStatics) : WatchdogStatics :=
  if !s.exhaustedWarned then { s with exhaustedWarned := true }.emit .exhausted else s

/-- Warn if the failures are used up. -/
def warnIfExhausted (s : WatchdogStatics) : WatchdogStatics :=
  if maxSpawnFailures ≤ s.spawnFailures then s.warnExhaustedOnce else s

/-- Fill the slot with a new reaper, or count a failure. -/
def trySpawnReaper (s : WatchdogStatics) (ok : Bool) : WatchdogStatics :=
  let s := s.emit (.spawnAttempt s.spawnFailures ok)
  if ok then { s with reaper := true }
  else { s with reaper := false, spawnFailures := s.spawnFailures + 1 }

/-- The write to a reaper that has just replaced a dead one: if it fails, the new reaper died
at once, which counts as a failure to spawn it. -/
def rewriteId (s : WatchdogStatics) (id : Bytes) (o : RegisterOutcomes) : WatchdogStatics :=
  if !o.rewrite then
    let s := { s with spawnFailures := s.spawnFailures + 1 }.emit .diedAfterRespawn
    { s with reaper := false }.warnIfExhausted
  else s.emit (.wrote id)

/-- Replace a dead reaper. -/
def respawnReaper (s : WatchdogStatics) (id : Bytes) (o : RegisterOutcomes) :
    WatchdogStatics :=
  let s := s.trySpawnReaper o.respawn
  if s.reaper then s.rewriteId id o else s.warnIfExhausted

/-- The write to the reaper in the slot: a failure lets go of it and counts nothing. -/
def writeId (s : WatchdogStatics) (id : Bytes) (o : RegisterOutcomes) : WatchdogStatics :=
  if o.write then s.emit (.wrote id)
  else
    let s := { s.emit .pipeClosed with reaper := false }
    if maxSpawnFailures ≤ s.spawnFailures then s.warnExhaustedOnce
    else s.respawnReaper id o

/-- The first spawn. -/
def spawnReaper (s : WatchdogStatics) (id : Bytes) (o : RegisterOutcomes) : WatchdogStatics :=
  let s := s.trySpawnReaper o.spawn
  if !s.reaper then s.warnIfExhausted else s.writeId id o

/-- A call. -/
def register (s : WatchdogStatics) (call : RegisterCall) : WatchdogStatics :=
  if !isValidContainerId call.id then s.emit .refusedId
  else if !s.reaper then
    if maxSpawnFailures ≤ s.spawnFailures then s.warnExhaustedOnce
    else s.spawnReaper call.id call.outcomes
  else s.writeId call.id call.outcomes

/-- One call after the other. -/
def registerAll (s : WatchdogStatics) (calls : List RegisterCall) : WatchdogStatics :=
  calls.foldl register s

/-! ### What one call does -/

/-- What a call logs before its end: pipes that were closed, and at most `n` attempts to
spawn a reaper, made while some failures were left. -/
structure Preamble (s : WatchdogStatics) (n : ℕ) (es : List WatchdogEvent) : Prop where
  only : ∀ e ∈ es, e = .pipeClosed ∨ e = .diedAfterRespawn ∨
    s.spawnFailures < maxSpawnFailures ∧ ∃ ok, e = .spawnAttempt s.spawnFailures ok
  attempts : es.countP WatchdogEvent.isSpawnAttempt ≤ n

/-- A reaper is held when the id is to be written: from an earlier call, or from a first spawn
that has succeeded. -/
def Holds (s : WatchdogStatics) (o : RegisterOutcomes) : Prop :=
  s.reaper = true ∨ s.spawnFailures < maxSpawnFailures ∧ o.spawn = true

/-- With these outcomes a call writes its id: to the reaper that is held, or to the one that
replaces it. -/
def Writes (s : WatchdogStatics) (o : RegisterOutcomes) : Prop :=
  s.Holds o ∧ (o.write = true ∨
    s.spawnFailures < maxSpawnFailures ∧ o.respawn = true ∧ o.rewrite = true)

/-- The three ends of a call: the id is written, a failure is charged, or none was left. Which of
them it is depends on the outcomes of its spawns and writes. -/
inductive Registered (s : WatchdogStatics) (call : RegisterCall) : WatchdogStatics → Prop
  | wrote (es : List WatchdogEvent) : s.Preamble 2 es → s.Writes call.outcomes →
      Registered s call
        ({ s with reaper := true, events := s.events ++ es }.emit (.wrote call.id))
  | charged (es : List WatchdogEvent) : s.Preamble 2 es → s.spawnFailures < maxSpawnFailures →
      ¬ s.Writes call.outcomes →
      Registered s call { s with
        reaper := false
        spawnFailures := s.spawnFailures + 1
        events := s.events ++ es }.warnIfExhausted
  | refused (es : List WatchdogEvent) : s.Preamble 0 es → maxSpawnFailures ≤ s.spawnFailures →
      ¬ s.Writes call.outcomes →
      Registered s call { s with reaper := false, events := s.events ++ es }.warnExhaustedOnce

/-- A call may log nothing before its end. -/
theorem preamble_nil (s : WatchdogStatics) : s.Preamble 0 [] :=
  ⟨by simp, by simp⟩

/-- One more attempt to spawn a reaper. The failures it counts are those at the beginning
of the call. -/
theorem Preamble.spawn {s : WatchdogStatics} {n : ℕ} {es : List WatchdogEvent}
    (h : s.Preamble n es) (hleft : s.spawnFailures < maxSpawnFailures) (ok : Bool) :
    s.Preamble (n + 1) (es ++ [.spawnAttempt s.spawnFailures ok]) := by
  constructor
  · intro e he
    rcases List.mem_append.mp he with he | he
    · exact h.only e he
    · exact .inr (.inr ⟨hleft, ok, List.mem_singleton.mp he⟩)
  · rw [List.countP_append]
    exact Nat.add_le_add h.attempts (by simp [WatchdogEvent.isSpawnAttempt])

/-- One more report of a dead reaper. -/
theorem Preamble.dead {s : WatchdogStatics} {n : ℕ} {es : List WatchdogEvent}
    (h : s.Preamble n es) {e : WatchdogEvent} (he : e = .pipeClosed ∨ e = .diedAfterRespawn) :
    s.Preamble n (es ++ [e]) := by
  constructor
  · intro e' he'
    rcases List.mem_append.mp he' with he' | he'
    · exact h.only e' he'
    · obtain rfl := List.mem_singleton.mp he'
      rcases he with he | he
      · exact .inl he
      · exact .inr (.inl he)
  · rcases he with rfl | rfl <;>
      simpa [List.countP_append, WatchdogEvent.isSpawnAttempt] using h.attempts

/-- The bound on the attempts to spawn a reaper may be raised. -/
theorem Preamble.mono {s : WatchdogStatics} {m n : ℕ} {es : List WatchdogEvent}
    (h : s.Preamble m es) (hmn : m ≤ n) : s.Preamble n es :=
  ⟨h.only, h.attempts.trans hmn⟩

/-- **The second half of a call**, after the events `es` and a write that has failed: the reaper is
replaced, and the id is written to the new one if it is spawned and alive. -/
theorem registered_respawnReaper {s : WatchdogStatics} {es : List WatchdogEvent}
    (h : s.Preamble 1 es) (hleft : s.spawnFailures < maxSpawnFailures) {call : RegisterCall}
    (hholds : s.Holds call.outcomes) (hwrite : call.outcomes.write = false) :
    s.Registered call ({ s with reaper := false, events := s.events ++ es }.respawnReaper call.id
      call.outcomes) := by
  have hspawn := h.spawn hleft
  obtain ⟨id, spawn, write, respawn, rewrite⟩ := call
  obtain rfl : write = false := hwrite
  cases respawn with
  | false =>
      have hs : s.Registered ⟨id, spawn, false, false, rewrite⟩ _ :=
        .charged _ (hspawn false) hleft (by simp [Writes])
      simpa [respawnReaper, trySpawnReaper, emit] using hs
  | true =>
      cases rewrite with
      | false =>
          have hs : s.Registered ⟨id, spawn, false, true, false⟩ _ :=
            .charged _ ((hspawn true).dead (.inr rfl)) hleft (by simp [Writes])
          simpa [respawnReaper, trySpawnReaper, rewriteId, emit] using hs
      | true =>
          have hs : s.Registered ⟨id, spawn, false, true, true⟩ _ :=
            .wrote _ (hspawn true) ⟨hholds, .inr ⟨hleft, rfl, rfl⟩⟩
          simpa [respawnReaper, trySpawnReaper, rewriteId, emit] using hs

/-- A call from its first write on, after the events `es`: there are none of them if the reaper
has been held before the call. -/
theorem registered_writeId {s : WatchdogStatics} {es : List WatchdogEvent}
    (h : s.Preamble 1 es) {call : RegisterCall} (hholds : s.Holds call.outcomes)
    (hes : es = [] ∨ s.spawnFailures < maxSpawnFailures) :
    s.Registered call ({ s with reaper := true, events := s.events ++ es }.writeId call.id
      call.outcomes) := by
  rw [writeId]
  split
  · next hwrite => exact .wrote es (h.mono (by omega)) ⟨hholds, .inl hwrite⟩
  · next hwrite =>
      have hwrite : call.outcomes.write = false := Bool.eq_false_iff.mpr hwrite
      dsimp only [emit]
      split
      · next hnone =>
          obtain rfl := hes.resolve_right hnone.not_gt
          have hs : s.Registered call _ := .refused _ ((preamble_nil s).dead (.inl rfl)) hnone
            (by simp [Writes, hwrite, hnone.not_gt])
          simpa [emit] using hs
      · next hleft =>
          have hs := registered_respawnReaper (h.dead (.inl rfl)) (Nat.lt_of_not_le hleft) hholds
            hwrite
          simpa [emit] using hs

/-- **What a call does**: it writes its id, or is charged one failure, or finds none left.
The cases are those of the slot and, where it is empty, of the first spawn. -/
theorem register_cases (s : WatchdogStatics) (call : RegisterCall)
    (hvalid : isValidContainerId call.id = true) : s.Registered call (s.register call) := by
  rw [register, if_neg (by simp [hvalid])]
  cases hs : s.reaper with
  | false =>
      rw [if_pos (by rfl)]
      split
      · next hnone =>
          have h : s.Registered call _ := .refused _ (preamble_nil s) hnone
            (by simp [Writes, Holds, hs, hnone.not_gt])
          rwa [List.append_nil, show { s with reaper := false } = s by rw [← hs]] at h
      · next hleft =>
          have hleft := Nat.lt_of_not_le hleft
          have hspawn := (preamble_nil s).spawn hleft
          cases ho : call.outcomes.spawn with
          | false =>
              have h : s.Registered call _ := .charged _ ((hspawn false).mono (by omega)) hleft
                (by simp [Writes, Holds, hs, ho])
              simpa [spawnReaper, trySpawnReaper, emit, ho] using h
          | true =>
              have h := registered_writeId (hspawn true) (.inr ⟨hleft, ho⟩) (.inr hleft)
              simpa [spawnReaper, trySpawnReaper, emit, ho] using h
  | true =>
      have h : s.Registered call _ :=
        registered_writeId ((preamble_nil s).mono (Nat.zero_le 1)) (.inl hs) (.inl rfl)
      rwa [List.append_nil, show { s with reaper := true } = s by rw [← hs]] at h

/-! ### The accounts -/

/-- The failures are bounded, no reaper is held once they are used up, and exactly then that
has been said, once. -/
structure Accounted (s : WatchdogStatics) : Prop where
  failures : s.spawnFailures ≤ maxSpawnFailures
  released : s.spawnFailures = maxSpawnFailures → s.reaper = false
  warned : s.exhaustedWarned = true ↔ s.spawnFailures = maxSpawnFailures
  once : s.events.count .exhausted = s.exhaustedWarned.toNat

/-- What a call from `s` to `s'` does, with `es` as its part of the log: its id is logged as
written exactly if the outcomes of its spawns and writes have it written, and an attempt to spawn a
reaper is logged with the failures so far, of which some are left. -/
structure ExactCall (s : WatchdogStatics) (call : RegisterCall) (s' : WatchdogStatics)
    (es : List WatchdogEvent) : Prop where
  log : s'.events = s.events ++ es
  mono : s.spawnFailures ≤ s'.spawnFailures
  writes : .wrote call.id ∈ es ↔ s.Writes call.outcomes
  unwritten : .wrote call.id ∉ es →
    s'.spawnFailures = s.spawnFailures + 1 ∨ s.spawnFailures = maxSpawnFailures
  written : .wrote call.id ∈ es → s'.spawnFailures = s.spawnFailures
  spawns : es.countP WatchdogEvent.isSpawnAttempt ≤ 2
  left : ∀ n ok, .spawnAttempt n ok ∈ es → n = s.spawnFailures ∧ n < maxSpawnFailures
  exhausted : .exhausted ∈ es ↔
    s.spawnFailures < maxSpawnFailures ∧ s'.spawnFailures = maxSpawnFailures

/-- In the beginning nothing has failed and no warning has been given. -/
theorem accounted_init : init.Accounted :=
  ⟨by decide, by decide, by decide, by decide⟩

/-- The log of a call up to its end neither writes an id nor warns of exhaustion. -/
theorem Preamble.notMem {s : WatchdogStatics} {n : ℕ} {es : List WatchdogEvent}
    (h : s.Preamble n es) : (∀ id, .wrote id ∉ es) ∧ .exhausted ∉ es := by
  constructor
  · intro id hid
    rcases h.only _ hid with he | he | ⟨_, ok, he⟩ <;> cases he
  · intro hmem
    rcases h.only _ hmem with he | he | ⟨_, ok, he⟩ <;> cases he

/-- Reapers are spawned while failures are left, and the log says how many there were. The
counter does not move before the call ends. -/
theorem Preamble.left {s : WatchdogStatics} {n : ℕ} {es : List WatchdogEvent}
    (h : s.Preamble n es) :
    ∀ n ok, .spawnAttempt n ok ∈ es → n = s.spawnFailures ∧ n < maxSpawnFailures := by
  intro n ok hmem
  rcases h.only _ hmem with he | he | ⟨hleft, ok', he⟩
  · cases he
  · cases he
  · obtain ⟨rfl, -⟩ := WatchdogEvent.spawnAttempt.inj he
    exact ⟨rfl, hleft⟩

/-- Before the failures are used up, nothing has been said about it. -/
theorem Accounted.unwarned {s : WatchdogStatics} (h : s.Accounted)
    (hleft : s.spawnFailures < maxSpawnFailures) :
    s.exhaustedWarned = false ∧ s.events.count .exhausted = 0 := by
  have hwarned : s.exhaustedWarned = false :=
    Bool.eq_false_iff.mpr fun hw => hleft.ne (h.warned.mp hw)
  exact ⟨hwarned, by rw [h.once, hwarned, Bool.toNat_false]⟩

/-- **The step lemma**: a call with a valid id keeps the accounts and is exact. One case
for each of its three ends. -/
theorem Registered.exact {s s' : WatchdogStatics} {call : RegisterCall} (h : s.Accounted)
    (hr : s.Registered call s') : s'.Accounted ∧ ∃ es, s.ExactCall call s' es := by
  cases hr with
  | wrote es hpre hwrites =>
      have hne : s.spawnFailures ≠ maxSpawnFailures := by
        intro heq
        rcases hwrites.1 with hheld | ⟨hleft, -⟩
        · exact absurd (h.released heq) (by simp [hheld])
        · exact hleft.ne heq
      constructor
      · refine ⟨h.failures, fun heq => absurd heq hne, h.warned, ?_⟩
        simp [emit, h.once, List.count_eq_zero.mpr hpre.notMem.2]
      · refine ⟨es ++ [.wrote call.id], by simp [emit], le_rfl, iff_of_true (by simp) hwrites,
          by simp, fun _ => rfl, ?_, ?_, ?_⟩
        · simpa [List.countP_append, WatchdogEvent.isSpawnAttempt] using hpre.attempts
        · simpa using hpre.left
        · refine iff_of_false (by simp [hpre.notMem.2]) ?_
          exact fun ⟨_, heq⟩ => hne heq
  | charged es hpre hleft hnot =>
      obtain ⟨hwarned, honce⟩ := h.unwarned hleft
      have hes : es.count .exhausted = 0 := List.count_eq_zero.mpr hpre.notMem.2
      rw [warnIfExhausted]
      split
      · next hmax =>
          have heq : s.spawnFailures + 1 = maxSpawnFailures := le_antisymm hleft hmax
          simp only [warnExhaustedOnce, hwarned, emit]
          constructor
          · exact ⟨hleft, fun _ => rfl, iff_of_true rfl heq, by simp [honce, hes]⟩
          · refine ⟨es ++ [.exhausted], by simp, Nat.le_succ _,
              iff_of_false (by simp [hpre.notMem.1]) hnot, fun _ => .inl rfl, ?_, ?_, ?_, ?_⟩
            · simp [hpre.notMem.1]
            · simpa [List.countP_append, WatchdogEvent.isSpawnAttempt] using hpre.attempts
            · simpa using hpre.left
            · exact iff_of_true (by simp) ⟨hleft, heq⟩
      · next hmax =>
          have hne : s.spawnFailures + 1 ≠ maxSpawnFailures := fun heq => hmax heq.ge
          constructor
          · refine ⟨hleft, fun _ => rfl, iff_of_false (by simp [hwarned]) hne, ?_⟩
            simp [hwarned, honce, hes]
          · refine ⟨es, rfl, Nat.le_succ _, iff_of_false (hpre.notMem.1 call.id) hnot,
              fun _ => .inl rfl, ?_, hpre.attempts, hpre.left, ?_⟩
            · exact fun hmem => absurd hmem (hpre.notMem.1 call.id)
            · exact iff_of_false hpre.notMem.2 fun ⟨_, heq⟩ => hne heq
  | refused es hpre hnone hnot =>
      have heq : s.spawnFailures = maxSpawnFailures := le_antisymm h.failures hnone
      have hwarned := h.warned.mpr heq
      simp only [warnExhaustedOnce, hwarned]
      constructor
      · refine ⟨h.failures, fun _ => rfl, iff_of_true rfl heq, ?_⟩
        simp [h.once, hwarned, List.count_eq_zero.mpr hpre.notMem.2]
      · refine ⟨es, rfl, le_rfl, iff_of_false (hpre.notMem.1 call.id) hnot, fun _ => .inr heq,
          fun _ => rfl, hpre.attempts.trans (by omega), hpre.left, ?_⟩
        exact iff_of_false hpre.notMem.2 fun ⟨hleft, _⟩ => hleft.ne heq

/-- An invalid id changes nothing but the log. -/
theorem Accounted.register {s : WatchdogStatics} (h : s.Accounted) (call : RegisterCall) :
    (s.register call).Accounted := by
  cases hvalid : isValidContainerId call.id with
  | true => exact ((register_cases s call hvalid).exact h).1
  | false =>
      rw [WatchdogStatics.register, if_pos (by simp [hvalid])]
      exact ⟨h.failures, h.released, h.warned, by simp [emit, h.once]⟩

/-- **The run lemma**: the accounts are kept by every sequence of calls. -/
theorem Accounted.registerAll {s : WatchdogStatics} (h : s.Accounted)
    (calls : List RegisterCall) : (s.registerAll calls).Accounted := by
  induction calls generalizing s with
  | nil => exact h
  | cons call calls ih => exact ih (h.register call)

/-- **The failures are accounted for.** Over every sequence of calls with valid ids, in every
state between two calls: the failures never exceed the maximum, no reaper is held once they
have reached it, and the exhaustion has been said at most once. Every call writes its id exactly if
the outcomes of its spawns and writes allow it, and keeps the count or raises it: by one if its id
was not written while failures were left, by none if its id was written; it attempts to spawn at
most two reapers, and none once the failures are used up; and it says that they are used up exactly
if it is the one that uses up the last. -/
theorem register_accounting (calls : List RegisterCall)
    (hvalid : ∀ call ∈ calls, isValidContainerId call.id = true) :
    (∀ pre post, calls = pre ++ post →
      (init.registerAll pre).spawnFailures ≤ maxSpawnFailures ∧
      ((init.registerAll pre).spawnFailures = maxSpawnFailures →
        (init.registerAll pre).reaper = false) ∧
      (init.registerAll pre).events.count .exhausted ≤ 1) ∧
    ∀ pre call post, calls = pre ++ call :: post →
      ∃ es, (init.registerAll pre).ExactCall call (init.registerAll (pre ++ [call])) es := by
  constructor
  · intro pre post _
    have h := accounted_init.registerAll pre
    exact ⟨h.failures, h.released, h.once.trans_le (Bool.toNat_le _)⟩
  · rintro pre call post rfl
    have h := accounted_init.registerAll pre
    have hcall : call ∈ pre ++ call :: post := by simp
    rw [show init.registerAll (pre ++ [call]) = (init.registerAll pre).register call by
      simp [registerAll]]
    exact ((register_cases _ call (hvalid call hcall)).exact h).2

/-- A failed spawn; a reaper that dies at once and is replaced; a replacement that dies too;
another failed spawn, the third failure; and a call that finds no failures left. -/
def exhaustingCalls : List RegisterCall :=
  [⟨[99, 49], ⟨false, true, true, true⟩⟩, ⟨[99, 50], ⟨true, false, true, true⟩⟩,
    ⟨[99, 51], ⟨true, false, true, false⟩⟩, ⟨[99, 52], ⟨false, true, true, true⟩⟩,
    ⟨[99, 53], ⟨true, true, true, true⟩⟩]

/-- The accounts of these calls. -/
theorem register_accounting_exhausting :
    (∀ pre post, exhaustingCalls = pre ++ post →
      (init.registerAll pre).spawnFailures ≤ maxSpawnFailures ∧
      ((init.registerAll pre).spawnFailures = maxSpawnFailures →
        (init.registerAll pre).reaper = false) ∧
      (init.registerAll pre).events.count .exhausted ≤ 1) ∧
    ∀ pre call post, exhaustingCalls = pre ++ call :: post →
      ∃ es, (init.registerAll pre).ExactCall call (init.registerAll (pre ++ [call])) es :=
  register_accounting exhaustingCalls (by decide)

example : (init.registerAll exhaustingCalls).spawnFailures = maxSpawnFailures := by decide

/-! ### The calls of the small-step watchdog -/

/-- What is left of a call that stands at `pc`. -/
def resume (s : WatchdogStatics) (pc : RegisterPc) (o : RegisterOutcomes) : WatchdogStatics :=
  match pc with
  | .idle => s
  | .spawning id => s.spawnReaper id o
  | .writing id => s.writeId id o
  | .respawning id => s.respawnReaper id o
  | .rewriting id => s.rewriteId id o

end WatchdogStatics

namespace Watchdog

open WatchdogStatics

/-- The statics of the small-step watchdog, and its registered ids as written in the log. -/
structure Matches (s : Watchdog) (t : WatchdogStatics) : Prop where
  reaper : t.reaper = s.reaper.isSome
  failures : t.spawnFailures = s.spawnFailures
  warned : t.exhaustedWarned = s.exhaustedWarned
  registered : t.events.filterMap WatchdogEvent.writtenId = s.registered

/-- Whatever the rest of the call in progress meets, its end is that of a list of calls. -/
def Performs (s : Watchdog) : Prop :=
  ∃ t, s.Matches t ∧ ∀ o, ∃ calls, t.resume s.pc o = WatchdogStatics.init.registerAll calls

/-- In the beginning no call has been made. -/
theorem performs_init : init.Performs :=
  ⟨WatchdogStatics.init, ⟨rfl, rfl, rfl, rfl⟩, fun _ => ⟨[], rfl⟩⟩

/-- The end of a call that has not written its id. Both warn if the failures are used up
and no warning was given. -/
theorem Matches.giveUp {s : Watchdog} {t : WatchdogStatics} (h : s.Matches t) :
    s.giveUp.Matches t.warnIfExhausted := by
  have hfailures := h.failures
  have hwarned := h.warned
  rw [warnIfExhausted, warnExhaustedOnce]
  split
  · next hmax =>
      split
      · exact ⟨h.reaper, h.failures, by simp [Watchdog.giveUp, emit, ← hfailures, hmax],
          by simp [Watchdog.giveUp, emit, WatchdogEvent.writtenId, h.registered]⟩
      · next hsaid =>
          have hsaid : t.exhaustedWarned = true := by simpa using hsaid
          exact ⟨h.reaper, h.failures, by simp [Watchdog.giveUp, ← hwarned, hsaid], h.registered⟩
  · next hleft =>
      exact ⟨h.reaper, h.failures, by simp [Watchdog.giveUp, ← hfailures, hleft, hwarned],
        h.registered⟩

/-- The end of a call that is charged a failure. -/
theorem Matches.fail {s : Watchdog} {t : WatchdogStatics} (h : s.Matches t) {e : WatchdogEvent}
    (he : e.writtenId = none) :
    s.fail.Matches { t with
      reaper := false
      spawnFailures := t.spawnFailures + 1
      events := t.events ++ [e] }.warnIfExhausted := by
  refine Matches.giveUp ⟨rfl, ?_, h.warned, ?_⟩
  · exact congrArg (· + 1) h.failures
  · simp [he, h.registered]

/-- A new reaper in the slot. -/
theorem Matches.spawned {s : Watchdog} {t : WatchdogStatics} (h : s.Matches t)
    (pc : RegisterPc) : (s.spawned pc).Matches (t.trySpawnReaper true) :=
  ⟨rfl, h.failures, h.warned, by
    simp [trySpawnReaper, emit, WatchdogEvent.writtenId, h.registered, Watchdog.spawned]⟩

/-- The end of a call that has written its id. -/
theorem Matches.written {s : Watchdog} {t : WatchdogStatics} (h : s.Matches t) (i : ℕ)
    (r : Reaper) (id : Bytes) : (s.written i r id).Matches (t.emit (.wrote id)) :=
  ⟨h.reaper, h.failures, h.warned, by
    simp [emit, WatchdogEvent.writtenId, h.registered, Watchdog.written]⟩

/-- A call that begins is the next one of the list. -/
theorem exists_calls_register {t : WatchdogStatics}
    (h : ∀ o, ∃ calls, t.resume .idle o = WatchdogStatics.init.registerAll calls) (id : Bytes)
    (o : RegisterOutcomes) :
    ∃ calls, t.register ⟨id, o⟩ = WatchdogStatics.init.registerAll calls := by
  obtain ⟨calls, hcalls⟩ := h o
  refine ⟨calls ++ [⟨id, o⟩], ?_⟩
  calc t.register ⟨id, o⟩ = (WatchdogStatics.init.registerAll calls).register ⟨id, o⟩ := by
        rw [← hcalls]
        rfl
    _ = WatchdogStatics.init.registerAll (calls ++ [⟨id, o⟩]) := by simp [registerAll]

/-- A call that begins. An invalid id changes nothing; the others go on to a write or to a
spawn, or end at once when no failure is left. -/
theorem Performs.of_register {s s' : Watchdog} {id : Bytes} (h : s.Performs)
    (hs : s.step (.register id) = some s') : s'.Performs := by
  obtain ⟨t, hm, hcalls⟩ := h
  rw [step] at hs
  split at hs
  · next hpc =>
      rw [hpc] at hcalls
      have hnext := exists_calls_register hcalls id
      split at hs
      · obtain rfl := Option.some.inj hs
        exact ⟨t, hm, by rwa [hpc]⟩
      · next hvalid =>
          split at hs
          · next hheld =>
              obtain rfl := Option.some.inj hs
              refine ⟨t, ⟨hm.reaper, hm.failures, hm.warned, hm.registered⟩, ?_⟩
              simpa [resume, register, hvalid, hm.reaper, hheld] using hnext
          · next hheld =>
              split at hs
              · next hmax =>
                  obtain rfl := Option.some.inj hs
                  refine ⟨_, hm.giveUp, ?_⟩
                  simpa [resume, register, hvalid, hm.reaper, hheld, hm.failures, hmax,
                    warnIfExhausted, Watchdog.giveUp] using hnext
              · next hmax =>
                  obtain rfl := Option.some.inj hs
                  refine ⟨t, ⟨hm.reaper, hm.failures, hm.warned, hm.registered⟩, ?_⟩
                  simpa [resume, register, hvalid, hm.reaper, hheld, hm.failures, hmax] using
                    hnext
  · exact absurd hs (by simp)

/-- An attempt to spawn a reaper, at the beginning of a call or in the place of a dead one. -/
theorem Performs.of_spawn {s s' : Watchdog} {ok : Bool} (h : s.Performs)
    (hs : s.step (.spawn ok) = some s') : s'.Performs := by
  obtain ⟨t, hm, hcalls⟩ := h
  rw [step] at hs
  split at hs
  · next id hpc =>
      rw [hpc] at hcalls
      obtain rfl := Option.some.inj hs
      cases ok with
      | true =>
          refine ⟨_, hm.spawned _, ?_⟩
          intro o
          exact hcalls { o with spawn := true }
      | false =>
          refine ⟨_, hm.fail (e := .spawnAttempt t.spawnFailures false) rfl, ?_⟩
          intro o
          exact hcalls { o with spawn := false }
  · next id hpc =>
      rw [hpc] at hcalls
      obtain rfl := Option.some.inj hs
      cases ok with
      | true =>
          refine ⟨_, hm.spawned _, ?_⟩
          intro o
          exact hcalls { o with respawn := true }
      | false =>
          refine ⟨_, hm.fail (e := .spawnAttempt t.spawnFailures false) rfl, ?_⟩
          intro o
          exact hcalls { o with respawn := false }
  · exact absurd hs (by simp)

/-- A write, to the reaper in the slot or to one that has just replaced it. A write that
fails costs the slot, and a second one the call. -/
theorem Performs.of_write {s s' : Watchdog} (h : s.Performs)
    (hs : s.step .write = some s') : s'.Performs := by
  obtain ⟨t, hm, hcalls⟩ := h
  obtain ⟨i, hheld, hs⟩ := Option.bind_eq_some_iff.mp hs
  obtain ⟨r, hr, hs⟩ := Option.bind_eq_some_iff.mp hs
  split at hs
  · next id hpc =>
      rw [hpc] at hcalls
      split at hs
      · obtain rfl := Option.some.inj hs
        refine ⟨_, hm.written i r id, ?_⟩
        intro o
        exact hcalls { o with write := true }
      · have hclosed : Matches { s with reaper := none }
            { t.emit .pipeClosed with reaper := false } :=
          ⟨rfl, hm.failures, hm.warned, by
            simp [emit, WatchdogEvent.writtenId, hm.registered]⟩
        split at hs
        · next hmax =>
            obtain rfl := Option.some.inj hs
            refine ⟨_, hclosed.giveUp, ?_⟩
            intro o
            obtain ⟨calls, hend⟩ := hcalls { o with write := false }
            refine ⟨calls, hend ▸ ?_⟩
            simp [resume, writeId, warnIfExhausted, emit, hm.failures, hmax, Watchdog.giveUp]
        · next hmax =>
            obtain rfl := Option.some.inj hs
            refine ⟨_, ⟨hclosed.reaper, hclosed.failures, hclosed.warned,
              hclosed.registered⟩, ?_⟩
            intro o
            obtain ⟨calls, hend⟩ := hcalls { o with write := false }
            have hleft : ¬ maxSpawnFailures ≤ t.spawnFailures := hm.failures ▸ hmax
            exact ⟨calls, hend ▸ (if_neg hleft).symm⟩
  · next id hpc =>
      rw [hpc] at hcalls
      obtain rfl := Option.some.inj hs
      cases r.alive with
      | true =>
          refine ⟨_, hm.written i r id, ?_⟩
          intro o
          exact hcalls { o with rewrite := true }
      | false =>
          refine ⟨_, hm.fail (e := .diedAfterRespawn) rfl, ?_⟩
          intro o
          exact hcalls { o with rewrite := false }
  · exact absurd hs (by simp)

/-- **The simulation step**: what the system decides in a step of the small-step watchdog is
one of the outcomes of the call. -/
theorem Performs.of_step {s s' : Watchdog} {a : WatchdogAction} (h : s.Performs)
    (hs : s.step a = some s') : s'.Performs := by
  cases a with
  | register id => exact h.of_register hs
  | spawn ok => exact h.of_spawn hs
  | write => exact h.of_write hs
  | kill i =>
      obtain ⟨t, hm, hcalls⟩ := h
      obtain ⟨r, hr, rfl⟩ := Option.map_eq_some_iff.mp hs
      exact ⟨t, ⟨hm.reaper, hm.failures, hm.warned, hm.registered⟩, hcalls⟩

/-- **The small-step watchdog performs such calls.** In every run with reapers killed between any
two steps, whenever no call is in progress the slot, the counter and the flag are those that some
list of calls leads to, and the ids that have been registered are those that its log reports as
written; so the failures are bounded, and no reaper is held once they are used up. -/
theorem watchdog_performs_calls {acts : List WatchdogAction} {s : Watchdog}
    (hrun : Runs.run step init acts = some s) (hidle : s.pc = .idle) :
    (∃ calls, s.Matches (WatchdogStatics.init.registerAll calls)) ∧
      s.spawnFailures ≤ maxSpawnFailures ∧
      (s.spawnFailures = maxSpawnFailures → s.reaper = none) := by
  have h : s.Performs :=
    Runs.invariant_of_run (fun _ _ _ h hs => h.of_step hs) performs_init hrun
  obtain ⟨t, hm, hcalls⟩ := h
  obtain ⟨calls, hend⟩ := hcalls ⟨true, true, true, true⟩
  rw [hidle] at hend
  have hm : s.Matches (WatchdogStatics.init.registerAll calls) := hend ▸ hm
  have haccounted := accounted_init.registerAll calls
  refine ⟨⟨calls, hm⟩, hm.failures ▸ haccounted.failures, fun hmax => ?_⟩
  have hreleased := haccounted.released (hm.failures.trans hmax)
  exact Option.isNone_iff_eq_none.mp (by simpa [hm.reaper] using hreleased)

/-- A reaper that dies is replaced, and both ids are registered; some calls come to the same. -/
theorem watchdog_performs_calls_replacedReaper :
    ∃ s calls, Runs.run step init replacedReaperSchedule = some s ∧
      s.registered = [[99, 49], [99, 50]] ∧
      s.Matches (WatchdogStatics.init.registerAll calls) := by
  have hrun : Runs.run step init replacedReaperSchedule = some _ := rfl
  obtain ⟨⟨calls, hm⟩, -⟩ := watchdog_performs_calls hrun rfl
  exact ⟨_, calls, rfl, rfl, hm⟩

end Watchdog

end ContainerRs
