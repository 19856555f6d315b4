import ContainerRs.WaitStrategies

/-!
# What the Waits Observe

Each strategy of `WaitStrategies` polls and sleeps until what it has observed decides. For each
of them, what decides is said in terms of the observations alone: the calls of the wait are
exactly so many rounds that decide nothing and one that does.

## Main results

* `HealthWaitStrategy.observed`, `ExitWaitStrategy.observed`, `HttpWaitStrategy.observed`,
  `LogWaitStrategy.observed`: what each wait has asked for and seen when it ends
  (`WaitFor.Observed`).
* `blockUntilReady_observed`: the conditions are observed one after the other.
* `timeout_runs`: a wait under the timer ends as it says, or the timer has fired.
-/

namespace ContainerRs

open Programs Program

/-! ### What a health wait observes -/

namespace HealthWaitStrategy

/-- These probes decide nothing: there is no verdict, and none without health behind a running
one. -/
def Undecided (probes : List HealthProbe) : Prop :=
  ∀ pre probe, pre ++ [probe] <+: probes →
    probe.health = some .starting ∨
      probe.health = none ∧ ∀ p ∈ pre ++ [probe], p.running = false

/-- What the last probe decides. -/
inductive Decides (id : Text) (before : List HealthProbe) :
    Except Error HealthProbe → Except Error Unit → Prop
  | healthy {probe : HealthProbe} (h : probe.health = some .healthy) :
      Decides id before (.ok probe) (.ok ())
  | unhealthy {probe : HealthProbe} (h : probe.health = some .unhealthy) :
      Decides id before (.ok probe) (waitError (.unhealthy id))
  | notConfigured {probe : HealthProbe} (h : probe.health = none)
      (hrunning : ∃ p ∈ before ++ [probe], p.running = true) :
      Decides id before (.ok probe) (waitError (.healthCheckNotConfigured id))
  | failed (e : Error) : Decides id before (.error e) (.error e)

/-- The calls of rounds that go on. -/
def polls (s : HealthWaitStrategy) (id : Text) (probes : List HealthProbe) : Trace :=
  probes.flatMap fun probe => [⟨.containerHealth id, .ok probe⟩, ⟨.sleep s.pollInterval, ()⟩]

variable {s : HealthWaitStrategy} {id : Text}

/-- **The round lemma**: a probe decides, or the wait goes on. The flag that the loop
carries says whether a probe so far has seen the container run. -/
theorem runs_round {before : List HealthProbe} {tr : Trace} {out : Bool ⊕ Except Error Unit} :
    Runs (s.round id (before.any HealthProbe.running)) tr out ↔
      (∃ last r, out = .inr r ∧ tr = [⟨.containerHealth id, last⟩] ∧ Decides id before last r) ∨
        ∃ probe, out = .inl ((before ++ [probe]).any HealthProbe.running) ∧
          tr = s.polls id [probe] ∧
          (probe.health = some .starting ∨
            probe.health = none ∧ ∀ p ∈ before ++ [probe], p.running = false) := by
  have hany (probe : HealthProbe) : (before.any HealthProbe.running || probe.running) =
      (before ++ [probe]).any HealthProbe.running := by simp
  constructor
  · intro h
    obtain ⟨reply, rest, rfl, hrest⟩ := runs_request_bind.mp h
    cases reply with
    | error e =>
        obtain ⟨rfl, rfl⟩ := runs_pure.mp hrest
        exact .inl ⟨_, _, rfl, rfl, .failed e⟩
    | ok probe =>
        simp only [hany] at hrest
        match hhealth : probe.health, hrest with
        | some .healthy, hrest =>
            obtain ⟨rfl, rfl⟩ := runs_pure.mp hrest
            exact .inl ⟨_, _, rfl, rfl, .healthy hhealth⟩
        | some .unhealthy, hrest =>
            obtain ⟨rfl, rfl⟩ := runs_pure.mp hrest
            exact .inl ⟨_, _, rfl, rfl, .unhealthy hhealth⟩
        | some .starting, hrest =>
            obtain ⟨⟨⟩, rest, rfl, hend⟩ := runs_request_bind.mp hrest
            obtain ⟨rfl, rfl⟩ := runs_pure.mp hend
            exact .inr ⟨probe, rfl, rfl, .inl hhealth⟩
        | none, hrest =>
            by_cases hrunning : (before ++ [probe]).any HealthProbe.running = true
            · rw [if_pos hrunning] at hrest
              obtain ⟨rfl, rfl⟩ := runs_pure.mp hrest
              exact .inl ⟨_, _, rfl, rfl, .notConfigured hhealth (List.any_eq_true.mp hrunning)⟩
            · rw [if_neg hrunning] at hrest
              obtain ⟨⟨⟩, rest, rfl, hend⟩ := runs_request_bind.mp hrest
              obtain ⟨rfl, rfl⟩ := runs_pure.mp hend
              refine .inr ⟨probe, rfl, rfl, .inr ⟨hhealth, ?_⟩⟩
              intro p hp
              exact Bool.eq_false_iff.mpr fun hp' => hrunning (List.any_eq_true.mpr ⟨p, hp, hp'⟩)
  · rintro (⟨last, r, rfl, rfl, hdecides⟩ | ⟨probe, rfl, rfl, hundecided⟩)
    · refine runs_request_bind.mpr ⟨last, [], rfl, ?_⟩
      cases hdecides with
      | healthy h =>
          simp only [h]
          exact .done _
      | unhealthy h =>
          simp only [h]
          exact .done _
      | notConfigured h hrunning =>
          simp only [h, hany, List.any_eq_true.mpr hrunning, if_true]
          exact .done _
      | failed e => exact .done _
    · refine runs_request_bind.mpr ⟨.ok probe, _, rfl, ?_⟩
      rcases hundecided with h | ⟨h, hrunning⟩
      · simp only [h, hany]
        exact runs_request_bind.mpr ⟨(), _, rfl, .done _⟩
      · have hfalse : (before ++ [probe]).any HealthProbe.running = false :=
          List.any_eq_false.mpr fun p hp => by simp [hrunning p hp]
        simp only [h, hany, hfalse, Bool.false_eq_true, if_false]
        exact runs_request_bind.mpr ⟨(), _, rfl, .done _⟩

/-- One more probe that decides nothing: it says that the check is starting, or it has no
health and nothing has been running yet. -/
theorem Undecided.concat {before : List HealthProbe} {probe : HealthProbe} (h : Undecided before)
    (hprobe : probe.health = some .starting ∨
      probe.health = none ∧ ∀ p ∈ before ++ [probe], p.running = false) :
    Undecided (before ++ [probe]) := by
  intro pre p hprefix
  rcases List.prefix_concat_iff.mp hprefix with heq | hprefix
  · obtain ⟨rfl, hp⟩ := List.append_inj' heq rfl
    obtain rfl := List.singleton_inj.mp hp
    exact hprobe
  · exact h pre p hprefix

/-- **The run lemma**: probes that decide nothing, then one that decides. By induction on
the rounds, with the probes of the earlier ones in front. -/
theorem loops_iff {before : List HealthProbe} {n : ℕ} {tr : Trace} {r : Except Error Unit}
    (hbefore : Undecided before) :
    Loops (s.round id) n (before.any HealthProbe.running) tr r ↔
      ∃ probes last, probes.length = n ∧
        tr = s.polls id probes ++ [⟨.containerHealth id, last⟩] ∧
        Undecided (before ++ probes) ∧ Decides id (before ++ probes) last r := by
  induction n generalizing before tr with
  | zero =>
      constructor
      · intro h
        cases h with
        | last h =>
            rcases runs_round.mp h with ⟨last, r', hr, rfl, hdecides⟩ | ⟨probe, hr, -, -⟩
            · obtain rfl := Sum.inr.inj hr
              exact ⟨[], last, rfl, rfl, by rwa [List.append_nil], by rwa [List.append_nil]⟩
            · exact nomatch hr
      · rintro ⟨probes, last, hlen, rfl, -, hdecides⟩
        obtain rfl := List.length_eq_zero_iff.mp hlen
        rw [List.append_nil] at hdecides
        exact .last (runs_round.mpr (.inl ⟨last, r, rfl, rfl, hdecides⟩))
  | succ n ih =>
      constructor
      · intro h
        cases h with
        | again h hrest =>
            rcases runs_round.mp h with ⟨last, r', hr, -, -⟩ | ⟨probe, hr, rfl, hundecided⟩
            · exact nomatch hr
            · obtain rfl := Sum.inl.inj hr
              obtain ⟨probes, last, rfl, rfl, hprobes, hdecides⟩ :=
                (ih (hbefore.concat hundecided)).mp hrest
              rw [List.append_assoc] at hprobes hdecides
              exact ⟨probe :: probes, last, rfl, rfl, hprobes, hdecides⟩
      · rintro ⟨probes, last, hlen, rfl, hprobes, hdecides⟩
        obtain ⟨probe, probes, rfl⟩ := List.exists_cons_of_length_eq_add_one hlen
        have hundecided := hprobes before probe (by simp)
        rw [List.append_cons] at hprobes hdecides
        have htrace : s.polls id (probe :: probes) ++ [⟨.containerHealth id, last⟩] =
            s.polls id [probe] ++ (s.polls id probes ++ [⟨.containerHealth id, last⟩]) := rfl
        rw [htrace]
        exact .again (runs_round.mpr (.inr ⟨probe, rfl, rfl, hundecided⟩))
          ((ih (hbefore.concat hundecided)).mpr
            ⟨probes, last, Nat.succ.inj hlen, rfl, hprobes, hdecides⟩)

/-- Where there are no probes, nothing is decided. -/
theorem undecided_nil : Undecided [] := by
  intro pre probe hprefix
  exact absurd (List.prefix_nil.mp hprefix) (by simp)

/-- What a health wait has observed when it ends: on Linux it has asked for the health of the
container and slept until a probe decided. -/
def Observed (s : HealthWaitStrategy) (platform : Platform) (id : Text) (tr : Trace)
    (r : Except Error Unit) : Prop :=
  match platform with
  | .macos => tr = [] ∧ r = waitError (.healthCheckNotConfigured id)
  | .linux => ∃ probes last, tr = s.polls id probes ++ [⟨.containerHealth id, last⟩] ∧
      Undecided probes ∧ Decides id probes last r

/-- **A health wait that ends** has seen such probes, on Linux; on macOS it fails at
once. -/
theorem observed {platform : Platform} {rounds : ℕ} {tr : Trace} {r : Except Error Unit}
    (h : Runs (s.waitUntilReady platform id rounds) tr (some r)) : s.Observed platform id tr r := by
  cases platform with
  | macos =>
      obtain ⟨rfl, hr⟩ := runs_pure.mp h
      exact ⟨rfl, (Option.some.inj hr).symm⟩
  | linux =>
      obtain ⟨n, -, hloops⟩ := runs_iterate.mp h
      obtain ⟨probes, last, -, htr, hprobes, hlast⟩ := (loops_iff undecided_nil).mp hloops
      exact ⟨probes, last, htr, hprobes, hlast⟩

/-- A health wait that has succeeded has seen the container healthy. -/
theorem exists_healthy {tr : Trace} (h : s.Observed .linux id tr (.ok ())) :
    ∃ probe : HealthProbe, probe.health = some .healthy ∧
      (⟨.containerHealth id, .ok probe⟩ : Event Call Reply) ∈ tr := by
  obtain ⟨probes, last, rfl, -, hdecides⟩ := h
  cases hdecides with
  | @healthy probe hhealthy => exact ⟨probe, hhealthy, by simp⟩

/-- The wait makes a call in each of its rounds. -/
theorem rounds_le {platform : Platform} {rounds : ℕ} {tr : Trace}
    (h : Runs (s.waitUntilReady platform id rounds) tr none) : rounds ≤ tr.length := by
  cases platform with
  | macos => exact nomatch (runs_pure.mp h).2
  | linux =>
      refine Runs.rounds_le ?_ h
      intro seen seen' tr hround
      obtain ⟨reply, rest, rfl, -⟩ := runs_request_bind.mp hround
      exact List.cons_ne_nil _ _

end HealthWaitStrategy

/-- **The runs of a health wait** on Linux are exactly the probes that decide nothing, each with a
sleep behind it, and one that decides. -/
theorem healthWait_runs_iff (s : HealthWaitStrategy) (id : Text) (rounds : ℕ) (tr : Trace)
    (r : Except Error Unit) :
    Runs (s.waitUntilReady .linux id rounds) tr (some r) ↔
      ∃ probes last, probes.length < rounds ∧
        tr = s.polls id probes ++ [⟨.containerHealth id, last⟩] ∧
        HealthWaitStrategy.Undecided probes ∧ HealthWaitStrategy.Decides id probes last r := by
  refine runs_iterate.trans ⟨?_, ?_⟩
  · rintro ⟨n, hn, hloops⟩
    obtain ⟨probes, last, rfl, htr, hprobes, hlast⟩ :=
      (HealthWaitStrategy.loops_iff HealthWaitStrategy.undecided_nil).mp hloops
    exact ⟨probes, last, hn, htr, hprobes, hlast⟩
  · rintro ⟨probes, last, hlen, htr, hprobes, hlast⟩
    exact ⟨probes.length, hlen,
      (HealthWaitStrategy.loops_iff HealthWaitStrategy.undecided_nil).mpr
        ⟨probes, last, rfl, htr, hprobes, hlast⟩⟩

/-! ### What an exit wait observes -/

namespace ExitWaitStrategy

/-- The code of a container is fetched: on macOS, once it has ended and a code is expected. -/
structure Fetches (s : ExitWaitStrategy) (platform : Platform) (state : ContainerSnapshot)
    (expected : Int) : Prop where
  platform : platform = .macos
  stopped : state.running = false
  expected : s.expectedCode = some expected

/-- The calls of a round that fetches the code. -/
def fetches (id : Text) (state : ContainerSnapshot) (reply : Except Error (Option Int)) : Trace :=
  [⟨.exitCodeHint id, none⟩, ⟨.containerState id, .ok state⟩, ⟨.exitCode id, reply⟩]

/-- What the calls of the last round decide: the code that is seen or fetched is one that was
expected, or another one, or there is none although one was expected. -/
inductive Decides (s : ExitWaitStrategy) (platform : Platform) (id : Text) :
    Trace → Except Error Unit → Prop
  | hintMatches {actual : Int} (h : s.expectedCode = none ∨ s.expectedCode = some actual) :
      Decides s platform id [⟨.exitCodeHint id, some actual⟩] (.ok ())
  | hintDiffers {expected actual : Int} (h : s.expectedCode = some expected)
      (hne : actual ≠ expected) : Decides s platform id [⟨.exitCodeHint id, some actual⟩]
        (waitError (.unexpectedExitCode expected (some actual)))
  | failed (e : Error) : Decides s platform id
      [⟨.exitCodeHint id, none⟩, ⟨.containerState id, .error e⟩] (.error e)
  | stopped {state : ContainerSnapshot} (hstopped : state.running = false)
      (hexpected : s.expectedCode = none) : Decides s platform id
      [⟨.exitCodeHint id, none⟩, ⟨.containerState id, .ok state⟩] (.ok ())
  | fetchFailed {state : ContainerSnapshot} {expected : Int}
      (h : s.Fetches platform state expected) (e : Error) :
      Decides s platform id (fetches id state (.error e)) (.error e)
  | fetchedMatches {state : ContainerSnapshot} {expected : Int}
      (h : s.Fetches platform state expected) :
      Decides s platform id (fetches id state (.ok (some expected))) (.ok ())
  | fetchedDiffers {state : ContainerSnapshot} {expected actual : Int}
      (h : s.Fetches platform state expected) (hne : actual ≠ expected) :
      Decides s platform id (fetches id state (.ok (some actual)))
        (waitError (.unexpectedExitCode expected (some actual)))
  | fetchedNone {state : ContainerSnapshot} {expected : Int}
      (h : s.Fetches platform state expected) :
      Decides s platform id (fetches id state (.ok none))
        (waitError (.unexpectedExitCode expected none))

/-- The calls of rounds that go on. -/
def polls (s : ExitWaitStrategy) (id : Text) (states : List ContainerSnapshot) : Trace :=
  states.flatMap fun state =>
    [⟨.exitCodeHint id, none⟩, ⟨.containerState id, .ok state⟩, ⟨.sleep s.pollInterval, ()⟩]

variable {s : ExitWaitStrategy} {platform : Platform} {id : Text}

/-- A code that is seen decides what the code of the wait makes of it. -/
theorem decides_hint (actual : Int) :
    Decides s platform id [⟨.exitCodeHint id, some actual⟩] (s.verdict actual) := by
  rw [verdict]
  cases hexpected : s.expectedCode with
  | none => exact .hintMatches (.inl hexpected)
  | some expected =>
      by_cases hne : actual = expected
      · subst hne
        simpa using .hintMatches (.inr hexpected)
      · simpa [hne] using .hintDiffers hexpected hne

/-- So does a code that is fetched, and an answer without one. -/
theorem decides_fetched {state : ContainerSnapshot} {expected : Int}
    (h : s.Fetches platform state expected) (reply : Except Error (Option Int)) :
    Decides s platform id (fetches id state reply) (fetchedVerdict expected reply) := by
  cases reply with
  | error e => exact .fetchFailed h e
  | ok code =>
      cases code with
      | none => exact .fetchedNone h
      | some actual =>
          by_cases hne : actual = expected
          · subst hne
            simpa [fetchedVerdict] using .fetchedMatches h
          · simpa [fetchedVerdict, hne] using .fetchedDiffers h hne

/-- **What decides, as the wait computes it.** The eight rules are four shapes of the
calls, each with its verdict. -/
theorem decides_iff {tr : Trace} {r : Except Error Unit} :
    Decides s platform id tr r ↔
      (∃ actual, tr = [⟨.exitCodeHint id, some actual⟩] ∧ r = s.verdict actual) ∨
      (∃ e, tr = [⟨.exitCodeHint id, none⟩, ⟨.containerState id, .error e⟩] ∧ r = .error e) ∨
      (∃ state : ContainerSnapshot, state.running = false ∧ s.expectedCode = none ∧
        tr = [⟨.exitCodeHint id, none⟩, ⟨.containerState id, .ok state⟩] ∧ r = .ok ()) ∨
      ∃ state expected reply, s.Fetches platform state expected ∧ tr = fetches id state reply ∧
        r = fetchedVerdict expected reply := by
  constructor
  · intro h
    cases h with
    | @hintMatches actual h =>
        refine .inl ⟨actual, rfl, ?_⟩
        rcases h with h | h <;> simp [verdict, h]
    | @hintDiffers expected actual h hne => exact .inl ⟨actual, rfl, by simp [verdict, h, hne]⟩
    | failed e => exact .inr (.inl ⟨e, rfl, rfl⟩)
    | @stopped state hstopped hexpected =>
        exact .inr (.inr (.inl ⟨state, hstopped, hexpected, rfl, rfl⟩))
    | fetchFailed h e => exact .inr (.inr (.inr ⟨_, _, .error e, h, rfl, rfl⟩))
    | fetchedMatches h =>
        exact .inr (.inr (.inr ⟨_, _, _, h, rfl, by simp [fetchedVerdict]⟩))
    | fetchedDiffers h hne =>
        exact .inr (.inr (.inr ⟨_, _, _, h, rfl, by simp [fetchedVerdict, hne]⟩))
    | fetchedNone h => exact .inr (.inr (.inr ⟨_, _, .ok none, h, rfl, rfl⟩))
  · rintro (⟨actual, rfl, rfl⟩ | ⟨e, rfl, rfl⟩ | ⟨state, hstopped, hexpected, rfl, rfl⟩ |
      ⟨state, expected, reply, h, rfl, rfl⟩)
    · exact decides_hint actual
    · exact .failed e
    · exact .stopped hstopped hexpected
    · exact decides_fetched h reply

/-- The sleep at the end of a round. -/
theorem runs_sleep {tr : Trace} {out : Unit ⊕ Except Error Unit} :
    Runs (ask (.sleep s.pollInterval) >>= fun _ => pure (.inl ()) : Task (Unit ⊕ Except Error Unit))
      tr out ↔ out = .inl () ∧ tr = [⟨.sleep s.pollInterval, ()⟩] := by
  constructor
  · intro h
    obtain ⟨⟨⟩, rest, rfl, hend⟩ := runs_request_bind.mp h
    obtain ⟨rfl, rfl⟩ := runs_pure.mp hend
    exact ⟨rfl, rfl⟩
  · rintro ⟨rfl, rfl⟩
    exact runs_request_bind.mpr ⟨(), _, rfl, .done _⟩

/-- **The round lemma**: a round decides, or the container is running, or the wait is for its
code on Linux. -/
theorem runs_round {tr : Trace} {out : Unit ⊕ Except Error Unit} :
    Runs (s.round platform id ()) tr out ↔
      (∃ r, out = .inr r ∧ Decides s platform id tr r) ∨
        ∃ state, out = .inl () ∧ tr = s.polls id [state] ∧
          (state.running = true ∨ platform = .linux ∧ s.expectedCode ≠ none) := by
  constructor
  · intro h
    obtain ⟨hint, rest, rfl, hrest⟩ := runs_request_bind.mp h
    cases hint with
    | some actual =>
        obtain ⟨rfl, rfl⟩ := runs_pure.mp hrest
        exact .inl ⟨_, rfl, decides_hint actual⟩
    | none =>
        obtain ⟨reply, rest, rfl, hstate⟩ := runs_request_bind.mp hrest
        cases reply with
        | error e =>
            obtain ⟨rfl, rfl⟩ := runs_pure.mp hstate
            exact .inl ⟨_, rfl, .failed e⟩
        | ok state =>
            cases hrunning : state.running with
            | true =>
                obtain ⟨rfl, rfl⟩ := runs_sleep.mp (by simpa [hrunning] using hstate)
                exact .inr ⟨state, rfl, rfl, .inl hrunning⟩
            | false =>
                cases hexpected : s.expectedCode with
                | none =>
                    simp only [hrunning, hexpected, Bool.not_false, Option.isNone_none,
                      Bool.and_self, if_true] at hstate
                    obtain ⟨rfl, rfl⟩ := runs_pure.mp hstate
                    exact .inl ⟨_, rfl, .stopped hrunning hexpected⟩
                | some expected =>
                    cases platform with
                    | linux =>
                        obtain ⟨rfl, rfl⟩ := runs_sleep.mp
                          (by simpa [hrunning, hexpected] using hstate)
                        exact .inr ⟨state, rfl, rfl, .inr ⟨rfl, by simp⟩⟩
                    | macos =>
                        simp only [hrunning, hexpected, Bool.not_false, Option.isNone_some,
                          Bool.and_false, Bool.false_eq_true, if_false, true_and, if_true] at hstate
                        obtain ⟨reply, rest, rfl, hcode⟩ := runs_request_bind.mp hstate
                        obtain ⟨rfl, rfl⟩ := runs_pure.mp hcode
                        exact .inl ⟨_, rfl, decides_fetched ⟨rfl, hrunning, hexpected⟩ reply⟩
  · rintro (⟨r, rfl, hdecides⟩ | ⟨state, rfl, rfl, hundecided⟩)
    · rcases decides_iff.mp hdecides with ⟨actual, rfl, rfl⟩ | ⟨e, rfl, rfl⟩ |
        ⟨state, hstopped, hexpected, rfl, rfl⟩ |
        ⟨state, expected, reply, ⟨hplatform, hstopped, hexpected⟩, rfl, rfl⟩
      · exact runs_request_bind.mpr ⟨some actual, _, rfl, .done _⟩
      · exact runs_request_bind.mpr
          ⟨none, _, rfl, runs_request_bind.mpr ⟨.error e, _, rfl, .done _⟩⟩
      · refine runs_request_bind.mpr
          ⟨none, _, rfl, runs_request_bind.mpr ⟨.ok state, _, rfl, ?_⟩⟩
        simp only [hstopped, hexpected, Bool.not_false, Option.isNone_none, Bool.and_self, if_true]
        exact .done _
      · refine runs_request_bind.mpr
          ⟨none, _, rfl, runs_request_bind.mpr ⟨.ok state, _, rfl, ?_⟩⟩
        simp only [hplatform, hstopped, hexpected, Bool.not_false, Option.isNone_some,
          Bool.and_false, Bool.false_eq_true, if_false, true_and, if_true]
        exact runs_request_bind.mpr ⟨reply, _, rfl, .done _⟩
    · refine runs_request_bind.mpr
        ⟨none, _, rfl, runs_request_bind.mpr ⟨.ok state, _, rfl, ?_⟩⟩
      have hsleep : Runs (ask (.sleep s.pollInterval) >>= fun _ => pure (.inl ()) :
          Task (Unit ⊕ Except Error Unit)) _ _ := runs_sleep.mpr ⟨rfl, rfl⟩
      rcases hundecided with hrunning | ⟨hplatform, hexpected⟩
      · simpa [hrunning] using hsleep
      · simpa [hplatform, hexpected] using hsleep

/-- **The run lemma**: rounds that decide nothing, then one that decides. By induction on
the rounds. -/
theorem loops_iff {n : ℕ} {tr : Trace} {r : Except Error Unit} :
    Loops (s.round platform id) n () tr r ↔
      ∃ states last, states.length = n ∧ tr = s.polls id states ++ last ∧
        (∀ state ∈ states, state.running = true ∨ platform = .linux ∧ s.expectedCode ≠ none) ∧
        Decides s platform id last r := by
  induction n generalizing tr with
  | zero =>
      constructor
      · intro h
        cases h with
        | last h =>
            rcases runs_round.mp h with ⟨r', hr, hdecides⟩ | ⟨state, hr, -, -⟩
            · obtain rfl := Sum.inr.inj hr
              exact ⟨[], _, rfl, rfl, by simp, hdecides⟩
            · exact nomatch hr
      · rintro ⟨states, last, hlen, rfl, -, hdecides⟩
        obtain rfl := List.length_eq_zero_iff.mp hlen
        exact .last (runs_round.mpr (.inl ⟨r, rfl, hdecides⟩))
  | succ n ih =>
      constructor
      · intro h
        cases h with
        | again h hrest =>
            rcases runs_round.mp h with ⟨r', hr, -⟩ | ⟨state, hr, rfl, hundecided⟩
            · exact nomatch hr
            · obtain ⟨states, last, rfl, rfl, hstates, hdecides⟩ := ih.mp hrest
              exact ⟨state :: states, last, rfl, rfl,
                List.forall_mem_cons.mpr ⟨hundecided, hstates⟩, hdecides⟩
      · rintro ⟨states, last, hlen, rfl, hstates, hdecides⟩
        obtain ⟨state, states, rfl⟩ := List.exists_cons_of_length_eq_add_one hlen
        obtain ⟨hundecided, hstates⟩ := List.forall_mem_cons.mp hstates
        have htrace : s.polls id (state :: states) ++ last =
            s.polls id [state] ++ (s.polls id states ++ last) := rfl
        rw [htrace]
        exact .again (runs_round.mpr (.inr ⟨state, rfl, rfl, hundecided⟩))
          (ih.mpr ⟨states, last, Nat.succ.inj hlen, rfl, hstates, hdecides⟩)

/-- What an exit wait has observed when it ends: it has asked for the exit code and for the state
of the container and slept until a round decided. -/
def Observed (s : ExitWaitStrategy) (platform : Platform) (id : Text) (tr : Trace)
    (r : Except Error Unit) : Prop :=
  ∃ states last, tr = s.polls id states ++ last ∧
    (∀ state ∈ states, state.running = true ∨ platform = .linux ∧ s.expectedCode ≠ none) ∧
    Decides s platform id last r

/-- **An exit wait that ends** has made such rounds, the last of which decides. -/
theorem observed {rounds : ℕ} {tr : Trace} {r : Except Error Unit}
    (h : Runs (s.waitUntilReady platform id rounds) tr (some r)) :
    s.Observed platform id tr r := by
  obtain ⟨n, -, hloops⟩ := runs_iterate.mp h
  obtain ⟨states, last, -, hobserved⟩ := loops_iff.mp hloops
  exact ⟨states, last, hobserved⟩

/-- The wait makes a call in each of its rounds. -/
theorem rounds_le {rounds : ℕ} {tr : Trace}
    (h : Runs (s.waitUntilReady platform id rounds) tr none) : rounds ≤ tr.length := by
  refine Runs.rounds_le ?_ h
  intro u u' tr hround
  obtain ⟨reply, rest, rfl, -⟩ := runs_request_bind.mp hround
  exact List.cons_ne_nil _ _

end ExitWaitStrategy

/-- **The runs of an exit wait** are exactly the rounds in which the container is running, or its
code is still awaited on Linux, and one that decides. -/
theorem exitWait_runs_iff (s : ExitWaitStrategy) (platform : Platform) (id : Text) (rounds : ℕ)
    (tr : Trace) (r : Except Error Unit) :
    Runs (s.waitUntilReady platform id rounds) tr (some r) ↔
      ∃ states last, states.length < rounds ∧ tr = s.polls id states ++ last ∧
        (∀ state ∈ states, state.running = true ∨ platform = .linux ∧ s.expectedCode ≠ none) ∧
        s.Decides platform id last r := by
  refine runs_iterate.trans ⟨?_, ?_⟩
  · rintro ⟨n, hn, hloops⟩
    obtain ⟨states, last, rfl, hobserved⟩ := ExitWaitStrategy.loops_iff.mp hloops
    exact ⟨states, last, hn, hobserved⟩
  · rintro ⟨states, last, hlen, hobserved⟩
    exact ⟨states.length, hlen, ExitWaitStrategy.loops_iff.mpr ⟨states, last, rfl, hobserved⟩⟩

/-! ### What an HTTP wait observes -/

/-- What one look at the ports of a container gives. -/
def shownHostPort (mapToHostPort : Ports → ContainerPort → Option UInt16) (id : Text)
    (port : ContainerPort) (reply : Except Error ContainerSnapshot) : Except Error UInt16 :=
  reply.bind fun state =>
    (mapToHostPort state.ports port).elim (.error (.portNotExposed id port)) .ok

/-- A host port is shown exactly if the state is known and has one for the port. -/
theorem shownHostPort_eq_ok {mapToHostPort : Ports → ContainerPort → Option UInt16} {id : Text}
    {port : ContainerPort} {reply : Except Error ContainerSnapshot} {hostPort : UInt16} :
    shownHostPort mapToHostPort id port reply = .ok hostPort ↔
      ∃ state, reply = .ok state ∧ mapToHostPort state.ports port = some hostPort := by
  cases reply with
  | error e => simp [shownHostPort, Except.bind]
  | ok state =>
      cases hstate : mapToHostPort state.ports port <;> simp [shownHostPort, Except.bind, hstate]

/-- A host port is what one look at the ports gives. -/
theorem getHostPort_run (mapToHostPort : Ports → ContainerPort → Option UInt16) (id : Text)
    (port : ContainerPort) :
    (getHostPort mapToHostPort id port).run =
      ask (.containerState id) >>= fun reply =>
        pure (shownHostPort mapToHostPort id port reply) := by
  refine congrArg (Program.call _) (funext fun reply => ?_)
  cases reply with
  | error e => rfl
  | ok state => rfl

namespace HttpWaitStrategy

/-- Where a host port is seen: over IPv4, or over IPv6 if a look at the ports before that did not
show it over IPv4. -/
inductive HostPortSeen (id : Text) (port : ContainerPort) (hostPort : UInt16) : Trace → Prop
  | ipv4 {state : ContainerSnapshot} (h : state.ports.mapToHostPortIpv4 port = some hostPort) :
      HostPortSeen id port hostPort [⟨.containerState id, .ok state⟩]
  | ipv6 {reply : Except Error ContainerSnapshot} {state : ContainerSnapshot}
      (hnone : ∀ first, reply = .ok first → first.ports.mapToHostPortIpv4 port = none)
      (h : state.ports.mapToHostPortIpv6 port = some hostPort) :
      HostPortSeen id port hostPort
        [⟨.containerState id, reply⟩, ⟨.containerState id, .ok state⟩]

variable {s : HttpWaitStrategy} {library : HttpLibrary} {id : Text} {tr : Trace}

/-- A host port that is used has been seen, over IPv4 or, where none was shown there, over
IPv6. -/
theorem hostPortSeen_of_runs {port : ContainerPort} {p : UInt16}
    (h : Runs (hostPort id port).run tr (.ok p)) : HostPortSeen id port p tr := by
  rw [hostPort, ExceptT.run_mk, getHostPortIpv4, getHostPortIpv6, getHostPort_run,
    getHostPort_run, runs_bind] at h
  obtain ⟨first, tr₁, tr₂, rfl, hfirst, hsecond⟩ := h
  obtain ⟨reply, rest, rfl, hreply⟩ := runs_request_bind.mp hfirst
  obtain ⟨rfl, rfl⟩ := runs_pure.mp hreply
  cases hof : shownHostPort Ports.mapToHostPortIpv4 id port reply with
  | ok hostPort =>
      rw [hof] at hsecond
      obtain ⟨rfl, hp⟩ := runs_pure.mp hsecond
      obtain rfl := Except.ok.inj hp
      obtain ⟨state, rfl, hstate⟩ := shownHostPort_eq_ok.mp hof
      exact .ipv4 hstate
  | error e =>
      rw [hof] at hsecond
      obtain ⟨reply', rest, rfl, hreply'⟩ := runs_request_bind.mp hsecond
      obtain ⟨rfl, hp⟩ := runs_pure.mp hreply'
      obtain ⟨state, rfl, hstate⟩ := shownHostPort_eq_ok.mp hp
      refine .ipv6 ?_ hstate
      rintro first rfl
      cases hfirst : first.ports.mapToHostPortIpv4 port with
      | none => rfl
      | some hostPort =>
          rw [shownHostPort_eq_ok.mpr ⟨first, rfl, hfirst⟩] at hof
          exact absurd hof (by simp)

/-- What is known once the polling begins. -/
structure Prepared (s : HttpWaitStrategy) (library : HttpLibrary) (id : Text) (hostPort : UInt16)
    (requestBytes : Bytes) (tr : Trace) : Prop where
  /-- The port is that of the strategy, or the first that the container has shown. -/
  port : ∃ port before seen, tr = before ++ seen ∧ HostPortSeen id port hostPort seen ∧
    (s.port = some port ∧ before = [] ∨
      s.port = none ∧ ∃ state, before = [⟨.containerState id, .ok state⟩] ∧
        state.ports.firstContainerPort = some port)
  request : library.buildRequestBytes s containerHost hostPort = .ok requestBytes

/-- The port to poll is the one given or the first one of the container. A port that is
missing in the strategy costs one look at the state. -/
theorem runs_containerPort {port : ContainerPort}
    (h : Runs (s.containerPort id).run tr (.ok port)) :
    s.port = some port ∧ tr = [] ∨
      s.port = none ∧ ∃ state, tr = [⟨.containerState id, .ok state⟩] ∧
        state.ports.firstContainerPort = some port := by
  rw [containerPort] at h
  cases hport : s.port with
  | some p =>
      rw [hport] at h
      obtain ⟨rfl, hp⟩ := runs_pure.mp h
      exact .inl ⟨congrArg some (Except.ok.inj hp), rfl⟩
  | none =>
      rw [hport] at h
      obtain ⟨ports, tr₁, tr₂, rfl, hports, hfirst⟩ := runs_ok_bind.mp h
      obtain ⟨state, tr₃, tr₄, rfl, hstate, hpure⟩ := runs_ok_bind.mp hports
      obtain rfl := runs_request.mp hstate
      obtain ⟨rfl, hports'⟩ := runs_pure.mp hpure
      obtain rfl := Except.ok.inj hports'
      cases hp : state.ports.firstContainerPort with
      | none =>
          rw [hp] at hfirst
          exact nomatch (runs_pure.mp hfirst).2
      | some p =>
          rw [hp] at hfirst
          obtain ⟨rfl, hpeq⟩ := runs_pure.mp hfirst
          obtain rfl := Except.ok.inj hpeq
          exact .inr ⟨rfl, state, by simp, hp⟩

/-- What is done before the polling ends with a host port that has been seen and the
request for it. -/
theorem prepared_of_runs {p : UInt16} {requestBytes : Bytes}
    (h : Runs (s.prepare library id).run tr (.ok (p, requestBytes))) :
    Prepared s library id p requestBytes tr := by
  obtain ⟨port, before, after, rfl, hport, hafter⟩ := runs_ok_bind.mp h
  obtain ⟨p', seen, rest, rfl, hseen, hbuild⟩ := runs_ok_bind.mp hafter
  cases hbytes : library.buildRequestBytes s containerHost p' with
  | error e =>
      rw [hbytes] at hbuild
      exact nomatch (runs_pure.mp hbuild).2
  | ok bytes =>
      rw [hbytes] at hbuild
      obtain ⟨rfl, hpair⟩ := runs_pure.mp hbuild
      obtain ⟨rfl, rfl⟩ := Prod.ext_iff.mp (Except.ok.inj hpair)
      refine ⟨⟨port, before, seen, by simp, hostPortSeen_of_runs hseen, ?_⟩, hbytes⟩
      rcases runs_containerPort hport with h | h
      · exact .inl h
      · exact .inr h

/-- The calls of rounds without the response that is waited for. -/
def polls (s : HttpWaitStrategy) (hostPort : UInt16) (requestBytes : Bytes)
    (responses : List (Option HttpResponse)) : Trace :=
  responses.flatMap fun response =>
    (if s.requestTimeout.asNanos = 0 then []
      else [⟨.sendRequest containerHost hostPort requestBytes, response⟩]) ++
    [⟨.sleep s.pollInterval, ()⟩]

/-- **The round lemma**: there is a response that matches, or the wait goes on. A request
without a response matches nothing. -/
theorem round_cases {matcher : HttpResponse → Bool} {p : UInt16} {requestBytes : Bytes}
    {out : Unit ⊕ Except Error Unit} (h : Runs (s.round matcher p requestBytes ()) tr out) :
    (∃ response, out = .inr (.ok ()) ∧ matcher response = true ∧
        tr = [⟨.sendRequest containerHost p requestBytes, some response⟩]) ∨
      ∃ response, out = .inl () ∧ response.any matcher = false ∧
        tr = s.polls p requestBytes [response] := by
  obtain ⟨response, tr₁, tr₂, rfl, hsend, hrest⟩ := runs_bind.mp h
  have hgoes (hany : response.any matcher = false) :
      out = .inl () ∧ tr₂ = [⟨.sleep s.pollInterval, ()⟩] := by
    rw [hany, if_neg Bool.false_ne_true] at hrest
    obtain ⟨⟨⟩, rest, rfl, hend⟩ := runs_request_bind.mp hrest
    obtain ⟨rfl, rfl⟩ := runs_pure.mp hend
    exact ⟨rfl, rfl⟩
  rw [sendRequest] at hsend
  by_cases hzero : s.requestTimeout.asNanos = 0
  · rw [if_pos hzero] at hsend
    obtain ⟨rfl, rfl⟩ := runs_pure.mp hsend
    obtain ⟨rfl, rfl⟩ := hgoes rfl
    exact .inr ⟨none, rfl, rfl, by simp [polls, hzero]⟩
  · rw [if_neg hzero] at hsend
    obtain rfl := runs_request.mp hsend
    cases hany : response.any matcher with
    | true =>
        obtain ⟨body, rfl, hmatch⟩ := (Option.any_eq_true _ _).mp hany
        rw [hany, if_pos rfl] at hrest
        obtain ⟨rfl, rfl⟩ := runs_pure.mp hrest
        exact .inl ⟨body, rfl, hmatch, rfl⟩
    | false =>
        obtain ⟨rfl, rfl⟩ := hgoes hany
        exact .inr ⟨response, rfl, hany, by simp [polls, hzero]⟩

/-- **The run lemma**: responses that do not match, then one that does. By induction on
the rounds, one case for each end of a round. -/
theorem loops_observed {matcher : HttpResponse → Bool} {p : UInt16} {requestBytes : Bytes}
    {n : ℕ} {r : Except Error Unit} (h : Loops (s.round matcher p requestBytes) n () tr r) :
    ∃ responses response, r = .ok () ∧
      tr = s.polls p requestBytes responses ++
        [⟨.sendRequest containerHost p requestBytes, some response⟩] ∧
      (∀ earlier ∈ responses, earlier.any matcher = false) ∧ matcher response = true := by
  generalize () = u at h
  induction h with
  | last h =>
      rcases round_cases h with ⟨response, hr, hmatch, rfl⟩ | ⟨response, hr, -, -⟩
      · obtain rfl := Sum.inr.inj hr
        exact ⟨[], response, rfl, rfl, by simp, hmatch⟩
      · exact nomatch hr
  | again h hrest ih =>
      rcases round_cases h with ⟨response, hr, -, -⟩ | ⟨response, hr, hany, rfl⟩
      · exact nomatch hr
      · obtain ⟨responses, last, rfl, rfl, hearlier, hmatch⟩ := ih
        refine ⟨response :: responses, last, rfl, ?_, ?_, hmatch⟩
        · rw [polls, List.flatMap_cons, ← polls, ← List.append_assoc]
          simp [polls]
        · exact List.forall_mem_cons.mpr ⟨hany, hearlier⟩

/-- What an HTTP wait has observed when it ends: it has failed before the first request, or it has
sent the same request to the same port until a response matched. -/
def Observed (s : HttpWaitStrategy) (library : HttpLibrary) (id : Text) (tr : Trace)
    (r : Except Error Unit) : Prop :=
  (s.responseMatcher = none ∧ tr = [] ∧ r = waitError (.httpWait .noResponseMatcher)) ∨
  ∃ matcher, s.responseMatcher = some matcher ∧
    ((∃ e, r = .error e ∧ Runs (s.prepare library id).run tr (.error e)) ∨
      ∃ front hostPort requestBytes responses response, r = .ok () ∧
        Prepared s library id hostPort requestBytes front ∧
        tr = front ++ s.polls hostPort requestBytes responses ++
          [⟨.sendRequest containerHost hostPort requestBytes, some response⟩] ∧
        (∀ earlier ∈ responses, earlier.any matcher = false) ∧ matcher response = true)

/-- **An HTTP wait that ends** has been prepared and has polled, or has failed before. The
matcher comes first, then what is sent; an error there ends the wait. -/
theorem observed {rounds : ℕ} {r : Except Error Unit}
    (h : Runs (s.waitUntilReady library id rounds) tr (some r)) : s.Observed library id tr r := by
  rw [waitUntilReady] at h
  cases hmatcher : s.responseMatcher with
  | none =>
      rw [hmatcher] at h
      obtain ⟨rfl, hr⟩ := runs_pure.mp h
      exact .inl ⟨hmatcher, rfl, (Option.some.inj hr).symm⟩
  | some matcher =>
      rw [hmatcher] at h
      refine .inr ⟨matcher, hmatcher, ?_⟩
      obtain ⟨prepared, front, tr₂, rfl, hprepare, hpoll⟩ := runs_bind.mp h
      cases prepared with
      | error e =>
          obtain ⟨rfl, hr⟩ := runs_pure.mp hpoll
          obtain rfl := Option.some.inj hr
          exact .inl ⟨e, rfl, by rwa [List.append_nil]⟩
      | ok prepared =>
          obtain ⟨hostPort, requestBytes⟩ := prepared
          obtain ⟨n, -, hloops⟩ := runs_iterate.mp hpoll
          obtain ⟨responses, response, rfl, rfl, hearlier, hmatch⟩ := loops_observed hloops
          exact .inr ⟨front, hostPort, requestBytes, responses, response, rfl,
            prepared_of_runs hprepare, by rw [List.append_assoc], hearlier, hmatch⟩

/-- The wait makes a call in each of its rounds. -/
theorem rounds_le {rounds : ℕ} (h : Runs (s.waitUntilReady library id rounds) tr none) :
    rounds ≤ tr.length := by
  rw [waitUntilReady] at h
  cases hmatcher : s.responseMatcher with
  | none =>
      rw [hmatcher] at h
      exact nomatch (runs_pure.mp h).2
  | some matcher =>
      rw [hmatcher] at h
      obtain ⟨prepared, front, tr₂, rfl, -, hpoll⟩ := runs_bind.mp h
      cases prepared with
      | error e => exact nomatch (runs_pure.mp hpoll).2
      | ok prepared =>
          have hle := Runs.rounds_le (fun u u' tr hround => ?_) hpoll
          · rw [List.length_append]
            omega
          · rcases round_cases hround with ⟨response, hr, -, -⟩ | ⟨response, -, -, rfl⟩
            · exact nomatch hr
            · simp [polls]

end HttpWaitStrategy

/-! ### What a log wait observes -/

namespace LogWait

/-- A pass that is given up has met a reader that failed. By induction on the readers,
which are polled in their order. -/
theorem mem_of_pollReaders {pass : Pass} {matchers : List StreamMatcher}
    {reads : List ReadOutcome} (h : pollReaders pass matchers reads = none) :
    ReadOutcome.failed ∈ reads := by
  induction matchers generalizing pass reads with
  | nil => cases reads <;> exact nomatch h
  | cons m matchers ih =>
      cases reads with
      | nil => exact nomatch h
      | cons outcome reads =>
          by_cases hfail : outcome = .failed
          · exact hfail ▸ List.mem_cons_self
          · rw [pollReaders_cons hfail] at h
            exact List.mem_cons_of_mem _ (ih h)

/-- A wait gives up only in a round in which the container has ended. -/
theorem ended_of_waitRound {strategy : LogWaitStrategy} {wait : LogWait}
    {round : Round strategy.source.readers} {collected : Bytes}
    (h : wait.waitRound strategy round = .inr (.endOfStream collected)) : round.ended = true := by
  rw [waitRound] at h
  cases hpass : wait.poll round with
  | none =>
      rw [hpass] at h
      exact absurd h (by simp)
  | some pass =>
      rw [hpass] at h
      by_contra hended
      simp only [hended, if_false] at h
      split at h
      · exact absurd h (by simp)
      · split at h <;> exact absurd h (by simp)

end LogWait

namespace LogWaitStrategy

variable {s : LogWaitStrategy} {id : Text} {tr : Trace}

/-- The message has not occurred often enough in the rounds. -/
def Missing (s : LogWaitStrategy) (rounds : List (Round s.source.readers)) : Prop :=
  totalOccurrences s.message (streams rounds) < s.times

/-- What the rounds decide. -/
inductive Decides (s : LogWaitStrategy) (rounds : List (Round s.source.readers)) :
    Except Error Unit → Prop
  | ready (h : s.times ≤ totalOccurrences s.message (streams rounds)) : Decides s rounds (.ok ())
  | io (h : ∃ round ∈ rounds, ReadOutcome.failed ∈ round.reads) :
      Decides s rounds (waitError (.waitLog .io))
  | endOfStream (hended : ∃ round ∈ rounds, round.ended = true) (h : Missing s rounds) :
      Decides s rounds (waitError (.waitLog
        (.endOfStream ((deliveredAll rounds).rtake maxCollectedLogBytes))))

/-- The calls of rounds: behind each the wait may sleep. -/
def Polls (s : LogWaitStrategy) (id : Text) (rounds : List (Round s.source.readers)) (tr : Trace) :
    Prop :=
  ∃ parts : List Trace, tr = parts.flatten ∧
    List.Forall₂ (fun round part =>
      part = [⟨.pollLogs id s.source, round⟩] ∨
        part = [⟨.pollLogs id s.source, round⟩, ⟨.sleep logPollInterval, ()⟩]) rounds parts

/-- One more poll, with a pause behind it or without. -/
theorem Polls.concat {rounds : List (Round s.source.readers)} {round : Round s.source.readers}
    {part : Trace} (h : s.Polls id rounds tr)
    (hpart : part = [⟨.pollLogs id s.source, round⟩] ∨
      part = [⟨.pollLogs id s.source, round⟩, ⟨.sleep logPollInterval, ()⟩]) :
    s.Polls id (rounds ++ [round]) (tr ++ part) := by
  obtain ⟨parts, rfl, hparts⟩ := h
  exact ⟨parts ++ [part], by simp, List.rel_append hparts (.cons hpart .nil)⟩

/-- **The round lemma**: a round decides, or the message is still missing. The matchers
represent what the rounds have read so far, so a match is one in all of it. -/
theorem pollRound_cases (hmessage : s.message ≠ []) {wait : LogWait}
    {rounds : List (Round s.source.readers)} (hwait : wait.Represents s.message rounds)
    {out : LogWait ⊕ Except Error Unit} (h : Runs (s.pollRound id wait) tr out) :
    ∃ round : Round s.source.readers,
      (tr = [⟨.pollLogs id s.source, round⟩] ∨
        tr = [⟨.pollLogs id s.source, round⟩, ⟨.sleep logPollInterval, ()⟩]) ∧
      match out with
      | .inl next => next.Represents s.message (rounds ++ [round]) ∧ s.Missing (rounds ++ [round])
      | .inr r => Decides s (rounds ++ [round]) r := by
  obtain ⟨round, rest, rfl, hrest⟩ := runs_request_bind.mp h
  have hround := hwait.waitRound hmessage round
  refine ⟨round, ?_⟩
  cases hout : wait.waitRound s round with
  | inr result =>
      rw [hout] at hround hrest
      obtain ⟨rfl, rfl⟩ := runs_pure.mp hrest
      refine ⟨.inl rfl, ?_⟩
      cases result with
      | ready => exact .ready hround
      | io => exact .io ⟨round, by simp, LogWait.mem_of_pollReaders hround⟩
      | endOfStream collected =>
          obtain ⟨hcollected, hmissing⟩ := hround
          have hended : ∃ r ∈ rounds ++ [round], r.ended = true :=
            ⟨round, by simp, LogWait.ended_of_waitRound hout⟩
          have hdecides := Decides.endOfStream hended hmissing
          rw [← hcollected] at hdecides
          exact hdecides
  | inl next =>
      rw [hout] at hround hrest
      by_cases hprogressed : (wait.poll round).any Pass.progressed = true
      · simp only [if_pos hprogressed] at hrest
        obtain ⟨rfl, rfl⟩ := runs_pure.mp hrest
        exact ⟨.inl rfl, hround⟩
      · simp only [if_neg hprogressed] at hrest
        obtain ⟨⟨⟩, rest, rfl, hend⟩ := runs_request_bind.mp hrest
        obtain ⟨rfl, rfl⟩ := runs_pure.mp hend
        exact ⟨.inr rfl, hround⟩

/-- **The run lemma**: rounds in which the message is missing, then one that decides.
By induction on the rounds, with the rounds in front as the history that the matchers
hold. -/
theorem loops_observed (hmessage : s.message ≠ []) {wait : LogWait} {before : Trace}
    {rounds : List (Round s.source.readers)} (hwait : wait.Represents s.message rounds)
    (hbefore : s.Polls id rounds before)
    (hmissing : ∀ pre, pre <+: rounds → pre ≠ [] → s.Missing pre)
    {n : ℕ} {r : Except Error Unit} (h : Loops (s.pollRound id) n wait tr r) :
    ∃ more last, s.Polls id (rounds ++ more ++ [last]) (before ++ tr) ∧
      (∀ pre, pre <+: rounds ++ more → pre ≠ [] → s.Missing pre) ∧
      Decides s (rounds ++ more ++ [last]) r := by
  induction h generalizing before rounds with
  | last h =>
      obtain ⟨last, hpart, hdecides⟩ := pollRound_cases hmessage hwait h
      refine ⟨[], last, ?_, ?_, ?_⟩
      · rw [List.append_nil]
        exact hbefore.concat hpart
      · rwa [List.append_nil]
      · rwa [List.append_nil]
  | again h hrest ih =>
      obtain ⟨round, hpart, hnext, hround⟩ := pollRound_cases hmessage hwait h
      have hmissing' : ∀ pre, pre <+: rounds ++ [round] → pre ≠ [] → s.Missing pre := by
        intro pre hprefix hpre
        rcases List.prefix_concat_iff.mp hprefix with rfl | hprefix
        · exact hround
        · exact hmissing pre hprefix hpre
      obtain ⟨more, last, hpolls, hmore, hdecides⟩ := ih hnext (hbefore.concat hpart) hmissing'
      refine ⟨round :: more, last, ?_, ?_, ?_⟩
      · rwa [List.append_cons rounds, ← List.append_assoc before]
      · rwa [List.append_cons rounds]
      · rwa [List.append_cons rounds]

/-- What a log wait has observed when it ends: it has asked the readers round by round, up to the
first round behind which the message has occurred often enough, or in which it gives up. -/
def Observed (s : LogWaitStrategy) (id : Text) (tr : Trace) (r : Except Error Unit) : Prop :=
  (s.message = [] ∧ tr = [] ∧ r = .ok ()) ∨
  ∃ rounds last, s.Polls id (rounds ++ [last]) tr ∧
    (∀ pre, pre <+: rounds → pre ≠ [] → s.Missing pre) ∧ Decides s (rounds ++ [last]) r

/-- **A wait for a message that ends** has polled the log up to a round behind which the
message has occurred often enough, or in which the wait gives up. -/
theorem observed {n : ℕ} {r : Except Error Unit}
    (h : Runs (s.waitForMessage id n) tr (some r)) : s.Observed id tr r := by
  rw [waitForMessage] at h
  by_cases hmessage : s.message = []
  · rw [if_pos hmessage] at h
    obtain ⟨rfl, hr⟩ := runs_pure.mp h
    exact .inl ⟨hmessage, rfl, (Option.some.inj hr).symm⟩
  · rw [if_neg hmessage] at h
    have hnil : ∀ pre : List (Round s.source.readers), pre <+: [] → pre ≠ [] → s.Missing pre :=
      fun pre hprefix hpre => absurd (List.prefix_nil.mp hprefix) hpre
    obtain ⟨m, -, hloops⟩ := runs_iterate.mp h
    obtain ⟨more, last, hpolls, hmore, hdecides⟩ := loops_observed hmessage
      (LogWait.represents_start s hmessage) ⟨[], rfl, .nil⟩ hnil hloops
    exact .inr ⟨more, last, hpolls, hmore, hdecides⟩

/-- The wait makes a call in each of its rounds. -/
theorem rounds_le {n : ℕ} (h : Runs (s.waitForMessage id n) tr none) : n ≤ tr.length := by
  rw [waitForMessage] at h
  by_cases hmessage : s.message = []
  · rw [if_pos hmessage] at h
    exact nomatch (runs_pure.mp h).2
  · rw [if_neg hmessage] at h
    refine Runs.rounds_le ?_ h
    intro wait wait' tr hround
    obtain ⟨reply, rest, rfl, -⟩ := runs_request_bind.mp hround
    exact List.cons_ne_nil _ _

end LogWaitStrategy

/-! ### What the waits observe together -/

/-- What a wait for a condition has observed when it ends. -/
def WaitFor.Observed (platform : Platform) (library : HttpLibrary) (id : Text) :
    WaitFor → Trace → Except Error Unit → Prop
  | nothing, tr, r => tr = [] ∧ r = .ok ()
  | log s, tr, r => s.Observed id tr r
  | duration length, tr, r => tr = [⟨.sleep length, ()⟩] ∧ r = .ok ()
  | healthcheck s, tr, r => s.Observed platform id tr r
  | http s, tr, r => s.Observed library id tr r
  | exit s, tr, r => s.Observed platform id tr r

/-- What waiting for one condition after the other has observed: all of them hold, or the first
that does not ends the wait with its error. -/
inductive ObservedAll (platform : Platform) (library : HttpLibrary) (id : Text) :
    List WaitFor → Trace → Except Error Unit → Prop
  | nil : ObservedAll platform library id [] [] (.ok ())
  | failed {condition : WaitFor} {conditions : List WaitFor} {tr : Trace} {e : Error}
      (h : condition.Observed platform library id tr (.error e)) :
      ObservedAll platform library id (condition :: conditions) tr (.error e)
  | cons {condition : WaitFor} {conditions : List WaitFor} {tr rest : Trace}
      {r : Except Error Unit} (h : condition.Observed platform library id tr (.ok ()))
      (hrest : ObservedAll platform library id conditions rest r) :
      ObservedAll platform library id (condition :: conditions) (tr ++ rest) r

section Together

variable {platform : Platform} {library : HttpLibrary} {id : Text} {tr : Trace}

/-- If all conditions hold, so does each. -/
theorem ObservedAll.of_mem {condition : WaitFor} {conditions : List WaitFor}
    (h : ObservedAll platform library id conditions tr (.ok ())) (hmem : condition ∈ conditions) :
    ∃ part, condition.Observed platform library id part (.ok ()) ∧ ∀ e ∈ part, e ∈ tr := by
  induction conditions generalizing tr with
  | nil => exact absurd hmem List.not_mem_nil
  | cons first conditions ih =>
      cases h with
      | @cons _ _ part rest _ hfirst hrest =>
          rcases List.mem_cons.mp hmem with rfl | hmem
          · exact ⟨part, hfirst, fun _ he => List.mem_append_left _ he⟩
          · obtain ⟨part, hpart, hsub⟩ := ih hrest hmem
            exact ⟨part, hpart, fun e he => List.mem_append_right _ (hsub e he)⟩

/-- **A wait that ends has observed its condition**, one case for each kind of
condition. -/
theorem WaitFor.observed {condition : WaitFor} {rounds : ℕ} {r : Except Error Unit}
    (h : Runs (condition.waitUntilReady platform library id rounds) tr (some r)) :
    condition.Observed platform library id tr r := by
  cases condition with
  | nothing =>
      obtain ⟨rfl, hr⟩ := runs_pure.mp h
      exact ⟨rfl, (Option.some.inj hr).symm⟩
  | log s => exact s.observed h
  | duration length =>
      obtain ⟨⟨⟩, rest, rfl, hend⟩ := runs_request_bind.mp h
      obtain ⟨rfl, hr⟩ := runs_pure.mp hend
      exact ⟨rfl, (Option.some.inj hr).symm⟩
  | healthcheck s => exact s.observed h
  | http s => exact s.observed h
  | exit s => exact s.observed h

/-- A wait that does not end has made an event in each of its rounds, so it is for want of
rounds. -/
theorem WaitFor.rounds_le {condition : WaitFor} {rounds : ℕ}
    (h : Runs (condition.waitUntilReady platform library id rounds) tr none) :
    rounds ≤ tr.length := by
  cases condition with
  | nothing => exact nomatch (runs_pure.mp h).2
  | log s => exact s.rounds_le h
  | duration length =>
      obtain ⟨⟨⟩, rest, rfl, hend⟩ := runs_request_bind.mp h
      exact nomatch (runs_pure.mp hend).2
  | healthcheck s => exact s.rounds_le h
  | http s => exact s.rounds_le h
  | exit s => exact s.rounds_le h

/-- The conditions are observed one after the other. By induction on the conditions: the
first that fails ends the wait. -/
theorem blockUntilReady_observed {conditions : List WaitFor} {rounds : ℕ} {r : Except Error Unit}
    (h : Runs (blockUntilReady platform library id rounds conditions) tr (some r)) :
    ObservedAll platform library id conditions tr r := by
  induction conditions generalizing tr with
  | nil =>
      obtain ⟨rfl, hr⟩ := runs_pure.mp h
      obtain rfl := Option.some.inj hr
      exact .nil
  | cons condition conditions ih =>
      obtain ⟨out, tr₁, tr₂, rfl, hcondition, hrest⟩ := runs_bind.mp h
      match out, hcondition, hrest with
      | none, _, hrest => exact nomatch (runs_pure.mp hrest).2
      | some (.error e), hcondition, hrest =>
          obtain ⟨rfl, hr⟩ := runs_pure.mp hrest
          obtain rfl := Option.some.inj hr
          rw [List.append_nil]
          exact .failed (WaitFor.observed hcondition)
      | some (.ok ()), hcondition, hrest => exact .cons (WaitFor.observed hcondition) (ih hrest)

/-- The same for all conditions in turn: the first that does not end has used up the
rounds. -/
theorem blockUntilReady_rounds_le {conditions : List WaitFor} {rounds : ℕ}
    (h : Runs (blockUntilReady platform library id rounds conditions) tr none) :
    rounds ≤ tr.length := by
  induction conditions generalizing tr with
  | nil => exact nomatch (runs_pure.mp h).2
  | cons condition conditions ih =>
      obtain ⟨out, tr₁, tr₂, rfl, hcondition, hrest⟩ := runs_bind.mp h
      rw [List.length_append]
      match out, hcondition, hrest with
      | none, hcondition, _ => exact (WaitFor.rounds_le hcondition).trans (Nat.le_add_right _ _)
      | some (.error e), _, hrest => exact nomatch (runs_pure.mp hrest).2
      | some (.ok ()), _, hrest => exact (ih hrest).trans (Nat.le_add_left _ _)

/-- **A wait under the timer** ends as the conditions say before the timer has fired, or ends with
the timer. -/
theorem timeout_runs {length : Duration} {conditions : List WaitFor} {r : Except Error Unit}
    (h : Runs (timeout platform library id length conditions) tr r) :
    ∃ awaits rest, tr = ⟨.timer length, awaits⟩ :: rest ∧ rest.length ≤ awaits ∧
      (ObservedAll platform library id conditions rest r ∨
        rest.length = awaits ∧ r = waitError (.startupTimeout id length)) := by
  obtain ⟨awaits, rest, rfl, hwait⟩ := runs_request_bind.mp h
  obtain ⟨out, tr₁, tr₂, rfl, hwithin, hend⟩ := runs_bind.mp hwait
  have hlen := hwithin.length_le_of_within
  have htr₂ : tr₂ = [] := by
    split at hend
    · exact (runs_pure.mp hend).1
    · exact (runs_pure.mp hend).1
  refine ⟨awaits, _, rfl, by rwa [htr₂, List.append_nil], ?_⟩
  rcases hwithin.of_within with ⟨result, rfl, hrun⟩ | ⟨rfl, -, hfired⟩
  · cases result with
    | none =>
        have := blockUntilReady_rounds_le hrun
        omega
    | some result =>
        obtain ⟨rfl, rfl⟩ := runs_pure.mp hend
        rw [List.append_nil]
        exact .inl (blockUntilReady_observed hrun)
  · obtain ⟨rfl, rfl⟩ := runs_pure.mp hend
    rw [List.append_nil]
    exact .inr ⟨hfired, rfl⟩

end Together

/-! ### What the waits may ask -/

/-- The calls of waits: they look at a container, send requests to it, or let time pass. -/
def WaitCall (id : Text) : Call → Prop
  | .containerHealth i | .exitCodeHint i | .containerState i | .exitCode i | .pollLogs i _ => i = id
  | .sendRequest _ _ _ | .sleep _ | .timer _ => True
  | _ => False

section Asked

variable {platform : Platform} {library : HttpLibrary} {id : Text}

/-- A round of a health wait asks for the health and sleeps. -/
theorem HealthWaitStrategy.calls_round (s : HealthWaitStrategy) (seenRunning : Bool) :
    (s.round id seenRunning).Calls (WaitCall id) := by
  refine Calls.bind (calls_request rfl) ?_
  rintro (e | ⟨running, health⟩)
  · exact calls_pure _
  · rcases health with - | (- | - | -)
    · cases hseen : (seenRunning || running) with
      | true =>
          simp only [hseen, if_true]
          exact calls_pure _
      | false =>
          simp only [hseen, Bool.false_eq_true, if_false]
          exact Calls.bind (calls_request trivial) fun _ => calls_pure _
    · exact Calls.bind (calls_request trivial) fun _ => calls_pure _
    · exact calls_pure _
    · exact calls_pure _

/-- A round of an exit wait asks for the code and the state, and sleeps. -/
theorem ExitWaitStrategy.calls_round (s : ExitWaitStrategy) (u : Unit) :
    (s.round platform id u).Calls (WaitCall id) := by
  refine Calls.bind (calls_request rfl) ?_
  rintro (- | actual)
  · refine Calls.bind (calls_request rfl) ?_
    rintro (e | state)
    · exact calls_pure _
    · dsimp only
      split
      · exact calls_pure _
      · split
        · split
          · exact calls_pure _
          · exact Calls.bind (calls_request rfl) fun _ => calls_pure _
        · exact Calls.bind (calls_request trivial) fun _ => calls_pure _
  · exact calls_pure _

/-- A host port is looked up in the state of the container. -/
theorem calls_getHostPort (mapToHostPort : Ports → ContainerPort → Option UInt16)
    (port : ContainerPort) : (getHostPort mapToHostPort id port).run.Calls (WaitCall id) := by
  rw [getHostPort_run]
  exact Calls.bind (calls_request rfl) fun _ => calls_pure _

/-- What is done before the polling asks for the state of the container alone. -/
theorem HttpWaitStrategy.calls_prepare (s : HttpWaitStrategy) :
    (s.prepare library id).run.Calls (WaitCall id) := by
  refine Calls.ebind ?_ fun port => Calls.ebind ?_ fun hostPort => ?_
  · rw [containerPort]
    split
    · exact calls_pure _
    · refine Calls.ebind (Calls.ebind (calls_request rfl) fun _ => calls_pure _) fun ports => ?_
      split <;> exact calls_pure _
  · refine (calls_getHostPort _ _).bind ?_
    rintro (e | hostPort)
    · exact calls_getHostPort _ _
    · exact calls_pure _
  · split <;> exact calls_pure _

/-- A round of an HTTP wait sends the request and sleeps. -/
theorem HttpWaitStrategy.calls_round (s : HttpWaitStrategy) (matcher : HttpResponse → Bool)
    (hostPort : UInt16) (requestBytes : Bytes) (u : Unit) :
    (s.round matcher hostPort requestBytes u).Calls (WaitCall id) := by
  refine Calls.bind ?_ fun response => ?_
  · rw [sendRequest]
    split
    · exact calls_pure _
    · exact calls_request trivial
  · split
    · exact calls_pure _
    · exact Calls.bind (calls_request trivial) fun _ => calls_pure _

/-- A round of a wait for a message polls the log, and sleeps when there was nothing. -/
theorem LogWaitStrategy.calls_pollRound (s : LogWaitStrategy) (wait : LogWait) :
    (s.pollRound id wait).Calls (WaitCall id) := by
  refine Calls.bind (calls_request rfl) fun round => ?_
  split
  · exact calls_pure _
  · split
    · exact calls_pure _
    · exact Calls.bind (calls_request trivial) fun _ => calls_pure _

/-- A wait for a condition asks nothing else. One case for each kind of condition. -/
theorem WaitFor.calls_waitUntilReady (condition : WaitFor) (rounds : ℕ) :
    (condition.waitUntilReady platform library id rounds).Calls (WaitCall id) := by
  cases condition with
  | nothing => exact calls_pure _
  | log s =>
      change (s.waitForMessage id rounds).Calls _
      rw [LogWaitStrategy.waitForMessage]
      split
      · exact calls_pure _
      · exact Calls.iterate s.calls_pollRound _ _
  | duration length => exact Calls.bind (calls_request trivial) fun _ => calls_pure _
  | healthcheck s =>
      cases platform with
      | macos => exact calls_pure _
      | linux => exact Calls.iterate s.calls_round _ _
  | http s =>
      change (s.waitUntilReady library id rounds).Calls _
      rw [HttpWaitStrategy.waitUntilReady]
      split
      · exact calls_pure _
      · refine s.calls_prepare.bind ?_
        rintro (e | ⟨hostPort, requestBytes⟩)
        · exact calls_pure _
        · exact Calls.iterate (s.calls_round _ _ _) _ _
  | exit s => exact Calls.iterate s.calls_round _ _

/-- A wait under the timer asks nothing else. -/
theorem calls_timeout (length : Duration) (conditions : List WaitFor) :
    (timeout platform library id length conditions).Calls (WaitCall id) := by
  refine Calls.bind (calls_request trivial) fun awaits =>
    Calls.bind (Calls.within ?_ _) fun out => ?_
  · generalize awaits + 1 = rounds
    induction conditions with
    | nil => exact calls_pure _
    | cons condition conditions ih =>
        refine (condition.calls_waitUntilReady rounds).bind fun out => ?_
        split
        · exact ih
        · exact calls_pure _
  · split <;> exact calls_pure _

end Asked

end ContainerRs
