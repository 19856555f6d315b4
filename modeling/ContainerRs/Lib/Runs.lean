import Mathlib.Data.List.Basic

/-!
# Runs of Deterministic Labelled Systems

A system is a partial step function `step : σ → α → Option σ`: the label says which party
acts and with which data, and `none` says that the action is not enabled. `run` folds it
over a schedule, so that a schedule determines at most one run and a concrete schedule can
be evaluated.

Two properties of a run are used throughout: `Always P` (every state the run passes
satisfies `P`) and `StepsMeet G` (every step of the run, judged by the state before it and
its label, satisfies `G`).

## Main results

* `invariant_of_run`: what every step preserves holds at the end of every run.
* `always_of_invariant`: and in every state on the way.
* `length_add_le_of_run`: a run whose steps lower a measure is bounded by it.
* `le_add_countP_of_run`: a measure that only some actions raise is bounded by their number.
* `exists_not_blocked`: parties that wait for others of a higher rank do not all wait.
* `always_of_final`: what steps pass backwards holds on the way when it holds at the end.
* `always_of_stepsMeet`: a property that every good step preserves holds throughout a run
  of good steps.
* `always_iff_stepsMeet`: when, under an invariant, a step keeps the property exactly if it
  is good, the property holds throughout a run exactly if all its steps are good.
* `stepsMeet_of_measure_eq`: bad steps are excluded by a measure that only they raise.
-/

namespace Runs

variable {σ α : Type*}

/-- Execute a schedule from `s`; `none` when some action is not enabled in its turn. -/
def run (step : σ → α → Option σ) : σ → List α → Option σ
  | s, [] => some s
  | s, a :: as => (step s a).bind fun s' => run step s' as

section

variable {step : σ → α → Option σ}

/-- A run makes its first step and then the others. -/
theorem run_cons (s : σ) (a : α) (as : List α) :
    run step s (a :: as) = (step s a).bind fun s' => run step s' as := rfl

/-- A run over a nonempty schedule splits into its first step and the rest. -/
theorem run_cons_eq_some {s t : σ} {a : α} {as : List α} :
    run step s (a :: as) = some t ↔ ∃ s', step s a = some s' ∧ run step s' as = some t := by
  rw [run_cons, Option.bind_eq_some_iff]

/-- **The invariant rule**: what every step preserves holds at the end of every run that
starts with it. -/
theorem invariant_of_run {Inv : σ → Prop}
    (hstep : ∀ s a s', Inv s → step s a = some s' → Inv s')
    {s t : σ} {as : List α} (hs : Inv s) (h : run step s as = some t) : Inv t := by
  induction as generalizing s with
  | nil =>
      obtain rfl : s = t := Option.some.inj h
      exact hs
  | cons a as ih =>
      obtain ⟨s', hs', hrun⟩ := run_cons_eq_some.mp h
      exact ih (hstep s a s' hs hs') hrun

/-- **The descent rule**: a run whose steps all lower a measure has at most as many steps as it
is lowered by. -/
theorem length_add_le_of_run (m : σ → ℕ) (hlower : ∀ s a s', step s a = some s' → m s' < m s)
    {s t : σ} {as : List α} (h : run step s as = some t) : as.length + m t ≤ m s := by
  induction as generalizing s with
  | nil =>
      obtain rfl : s = t := Option.some.inj h
      exact Nat.le_of_eq (Nat.zero_add _)
  | cons a as ih =>
      obtain ⟨s', hs', hrun⟩ := run_cons_eq_some.mp h
      have hrest := ih hrun
      have hstep := hlower s a s' hs'
      rw [List.length_cons]
      omega

/-- **The charge rule**: a measure that only the actions of `p` raise, each by at most `k`, has
been raised by at most `k` for each of them. -/
theorem le_add_countP_of_run (m : σ → ℕ) (p : α → Bool) (k : ℕ)
    (hstep : ∀ s a s', step s a = some s' → m s' ≤ m s + if p a then k else 0)
    {s t : σ} {as : List α} (h : run step s as = some t) : m t ≤ m s + k * as.countP p := by
  induction as generalizing s with
  | nil =>
      obtain rfl : s = t := Option.some.inj h
      exact Nat.le_add_right _ _
  | cons a as ih =>
      obtain ⟨s', hs', hrun⟩ := run_cons_eq_some.mp h
      have hrest := ih hrun
      have hfirst := hstep s a s' hs'
      rw [List.countP_cons, Nat.mul_add]
      split at hfirst
      · next hp => rw [if_pos hp]; omega
      · next hp => rw [if_neg hp]; omega

end

/-- **The waits-for rule**: when whoever is blocked waits for a party in progress that, if it is
blocked itself, is of a higher rank, and the ranks are bounded, some party in progress is not
blocked; for otherwise a chain of waiting parties would climb beyond the bound. -/
theorem exists_not_blocked {ι : Type*} {Active Blocked : ι → Prop} (rank : ι → ℕ) (bound : ℕ)
    (hwaits : ∀ i, Active i → Blocked i → rank i < bound ∧
      ∃ j, Active j ∧ (Blocked j → rank i < rank j))
    (h : ∃ i, Active i) : ∃ i, Active i ∧ ¬ Blocked i := by
  obtain ⟨i, hi⟩ := h
  by_contra hnone
  have hall : ∀ j, Active j → Blocked j := fun j hj => by
    by_contra hb
    exact hnone ⟨j, hj, hb⟩
  have hclimb : ∀ n, ∃ j, Active j ∧ n ≤ rank j := by
    intro n
    induction n with
    | zero => exact ⟨i, hi, Nat.zero_le _⟩
    | succ n ih =>
        obtain ⟨j, hj, hn⟩ := ih
        obtain ⟨-, k, hk, hlt⟩ := hwaits j hj (hall j hj)
        exact ⟨k, hk, Nat.lt_of_le_of_lt hn (hlt (hall k hk))⟩
  obtain ⟨j, hj, hbound⟩ := hclimb bound
  exact absurd (hwaits j hj (hall j hj)).1 (Nat.not_lt.mpr hbound)

/-- Every state that the schedule passes, from the start to the end, satisfies `P`. -/
def Always (step : σ → α → Option σ) (s : σ) (as : List α) (P : σ → Prop) : Prop :=
  ∀ pre post t, as = pre ++ post → run step s pre = some t → P t

/-- Every step of the schedule meets `G`, judged by the state before it and its label. -/
def StepsMeet (step : σ → α → Option σ) (s : σ) (as : List α) (G : σ → α → Prop) : Prop :=
  ∀ pre a post t, as = pre ++ a :: post → run step s pre = some t → G t a

section

variable {step : σ → α → Option σ} {P Inv : σ → Prop} {G : σ → α → Prop}

/-- In a run without steps there is one state. -/
theorem always_nil {s : σ} : Always step s [] P ↔ P s := by
  constructor
  · intro h
    exact h [] [] s rfl rfl
  · intro h pre post t hsplit hrun
    obtain ⟨rfl, rfl⟩ := List.append_eq_nil_iff.mp hsplit.symm
    obtain rfl : s = t := Option.some.inj hrun
    exact h

/-- The start of a run is one of its states. -/
theorem Always.start {s : σ} {as : List α} (h : Always step s as P) : P s :=
  h [] as s rfl rfl

/-- The end of a run is one of its states. -/
theorem Always.final {s t : σ} {as : List α} (h : Always step s as P)
    (hrun : run step s as = some t) : P t :=
  h as [] t (List.append_nil as).symm hrun

/-- The states of a run are the first one and those of the rest of the run. -/
theorem always_cons {s s' : σ} {a : α} {as : List α} (hstep : step s a = some s') :
    Always step s (a :: as) P ↔ P s ∧ Always step s' as P := by
  constructor
  · intro h
    refine ⟨h.start, ?_⟩
    intro pre post t hsplit hrun
    refine h (a :: pre) post t (by rw [hsplit, List.cons_append]) ?_
    exact run_cons_eq_some.mpr ⟨s', hstep, hrun⟩
  · rintro ⟨hs, h⟩ pre post t hsplit hrun
    cases pre with
    | nil =>
        obtain rfl : s = t := Option.some.inj hrun
        exact hs
    | cons b pre =>
        rw [List.cons_append, List.cons.injEq] at hsplit
        obtain ⟨rfl, rfl⟩ := hsplit
        obtain ⟨u, hu, hrun'⟩ := run_cons_eq_some.mp hrun
        obtain rfl : s' = u := Option.some.inj (hstep.symm.trans hu)
        exact h pre post t rfl hrun'

/-- A run without steps meets every condition on steps. -/
theorem stepsMeet_nil {s : σ} : StepsMeet step s [] G := by
  intro pre a post t hsplit
  simp at hsplit

/-- The steps of a run are the first one and those of the rest of the run. -/
theorem stepsMeet_cons {s s' : σ} {a : α} {as : List α} (hstep : step s a = some s') :
    StepsMeet step s (a :: as) G ↔ G s a ∧ StepsMeet step s' as G := by
  constructor
  · intro h
    refine ⟨h [] a as s rfl rfl, ?_⟩
    intro pre b post t hsplit hrun
    refine h (a :: pre) b post t (by rw [hsplit, List.cons_append]) ?_
    exact run_cons_eq_some.mpr ⟨s', hstep, hrun⟩
  · rintro ⟨hs, h⟩ pre b post t hsplit hrun
    cases pre with
    | nil =>
        obtain rfl : s = t := Option.some.inj hrun
        rw [List.nil_append, List.cons.injEq] at hsplit
        exact hsplit.1 ▸ hs
    | cons c pre =>
        rw [List.cons_append, List.cons.injEq] at hsplit
        obtain ⟨rfl, rfl⟩ := hsplit
        obtain ⟨u, hu, hrun'⟩ := run_cons_eq_some.mp hrun
        obtain rfl : s' = u := Option.some.inj (hstep.symm.trans hu)
        exact h pre b post t rfl hrun'

/-- Behind an action that is not enabled nothing is asked. -/
theorem stepsMeet_cons_of_none {s : σ} {a : α} {as : List α} (hstep : step s a = none) :
    StepsMeet step s (a :: as) G ↔ G s a := by
  constructor
  · intro h
    exact h [] a as s rfl rfl
  · intro hg pre b post t hsplit hrun
    cases pre with
    | nil =>
        obtain rfl : s = t := Option.some.inj hrun
        rw [List.nil_append, List.cons.injEq] at hsplit
        exact hsplit.1 ▸ hg
    | cons c pre =>
        rw [List.cons_append, List.cons.injEq] at hsplit
        obtain ⟨rfl, rfl⟩ := hsplit
        rw [run_cons, hstep, Option.bind_none] at hrun
        exact absurd hrun (by simp)

/-- Whether the steps of a concrete schedule are all good can be evaluated. -/
instance decidableStepsMeet [∀ s a, Decidable (G s a)] :
    (s : σ) → (as : List α) → Decidable (StepsMeet step s as G)
  | _, [] => isTrue stepsMeet_nil
  | s, a :: as =>
      match hstep : step s a with
      | none => decidable_of_iff (G s a) (stepsMeet_cons_of_none hstep).symm
      | some s' =>
          have := decidableStepsMeet s' as
          decidable_of_iff (G s a ∧ StepsMeet step s' as G) (stepsMeet_cons hstep).symm

/-- A property of every state of a run holds in particular before each of its steps. -/
theorem Always.stepsMeet {s : σ} {as : List α} (h : Always step s as P) :
    StepsMeet step s as fun t _ => P t :=
  fun pre a post t hsplit hrun => h pre (a :: post) t hsplit hrun

/-- An invariant holds in every state of every run. -/
theorem always_of_invariant (hstep : ∀ s a s', Inv s → step s a = some s' → Inv s')
    {s : σ} (hs : Inv s) (as : List α) : Always step s as Inv := by
  intro pre post t _ hrun
  exact invariant_of_run hstep hs hrun

/-- What every step passes backwards, and the end of a run has, every state on the way has:
the rule for bounds that only ever get tighter. -/
theorem always_of_final (hback : ∀ s a s', step s a = some s' → P s' → P s)
    {s t : σ} {as : List α} (hrun : run step s as = some t) (ht : P t) :
    Always step s as P := by
  induction as generalizing s with
  | nil =>
      obtain rfl : s = t := Option.some.inj hrun
      exact always_nil.mpr ht
  | cons a as ih =>
      obtain ⟨s', hs', hrun'⟩ := run_cons_eq_some.mp hrun
      have hrest := ih hrun'
      exact (always_cons hs').mpr ⟨hback s a s' hs' hrest.start, hrest⟩

/-- A property that every good step preserves holds throughout a run whose steps are all
good; an invariant of the run may be used in each step. -/
theorem always_of_stepsMeet
    (hgood : ∀ s a s', Inv s → P s → step s a = some s' → G s a → P s')
    {s t : σ} {as : List α} (hinv : Always step s as Inv) (hp : P s)
    (hrun : run step s as = some t) (hmeet : StepsMeet step s as G) :
    Always step s as P := by
  induction as generalizing s with
  | nil => exact always_nil.mpr hp
  | cons a as ih =>
      obtain ⟨s', hs', hrun'⟩ := run_cons_eq_some.mp hrun
      obtain ⟨hs, hinv'⟩ := (always_cons hs').mp hinv
      obtain ⟨hg, hmeet'⟩ := (stepsMeet_cons hs').mp hmeet
      exact (always_cons hs').mpr ⟨hp, ih hinv' (hgood s a s' hs hp hs' hg) hrun' hmeet'⟩

/-- **The exactness rule**: when a step from a state with the property keeps it exactly if
the step is good, the property holds throughout a run exactly if all its steps are good. -/
theorem always_iff_stepsMeet
    (hgood : ∀ s a s', Inv s → P s → step s a = some s' → (P s' ↔ G s a))
    {s t : σ} {as : List α} (hinv : Always step s as Inv) (hp : P s)
    (hrun : run step s as = some t) :
    Always step s as P ↔ StepsMeet step s as G := by
  constructor
  · intro h
    induction as generalizing s with
    | nil => exact stepsMeet_nil
    | cons a as ih =>
        obtain ⟨s', hs', hrun'⟩ := run_cons_eq_some.mp hrun
        obtain ⟨hs, hinv'⟩ := (always_cons hs').mp hinv
        obtain ⟨-, h'⟩ := (always_cons hs').mp h
        exact (stepsMeet_cons hs').mpr
          ⟨(hgood s a s' hs hp hs').mp h'.start, ih hinv' h'.start hrun' h'⟩
  · exact always_of_stepsMeet
      (fun s a s' hi hp hstep hg => (hgood s a s' hi hp hstep).mpr hg) hinv hp hrun

/-- **The budget rule**: a measure that no step lowers, and that a bad step from a state
with the property raises, has the same value at both ends of a run only if all its steps are
good. -/
theorem stepsMeet_of_measure_eq (P : σ → Prop) (m : σ → ℕ)
    (hmono : ∀ s a s', Inv s → step s a = some s' → m s ≤ m s')
    (hbad : ∀ s a s', Inv s → P s → step s a = some s' → ¬ G s a → m s < m s')
    (hgood : ∀ s a s', Inv s → P s → step s a = some s' → G s a → P s')
    {s t : σ} {as : List α} (hinv : Always step s as Inv) (hp : P s)
    (hrun : run step s as = some t) (hm : m t ≤ m s) : StepsMeet step s as G := by
  have hrise : ∀ {u : σ} {bs : List α}, Always step u bs Inv → run step u bs = some t →
      m u ≤ m t := by
    intro u bs
    induction bs generalizing u with
    | nil =>
        intro _ hrun
        obtain rfl : u = t := Option.some.inj hrun
        exact Nat.le_refl _
    | cons b bs ih =>
        intro hinv hrun
        obtain ⟨u', hu', hrun'⟩ := run_cons_eq_some.mp hrun
        obtain ⟨hu, hinv'⟩ := (always_cons hu').mp hinv
        exact Nat.le_trans (hmono u b u' hu hu') (ih hinv' hrun')
  induction as generalizing s with
  | nil => exact stepsMeet_nil
  | cons a as ih =>
      obtain ⟨s', hs', hrun'⟩ := run_cons_eq_some.mp hrun
      obtain ⟨hs, hinv'⟩ := (always_cons hs').mp hinv
      have hrest : m s' ≤ m t := hrise hinv' hrun'
      have hg : G s a := by
        by_contra hng
        have := hbad s a s' hs hp hs' hng
        omega
      have hup := hmono s a s' hs hs'
      exact (stepsMeet_cons hs').mpr
        ⟨hg, ih hinv' (hgood s a s' hs hp hs' hg) hrun' (Nat.le_trans hm hup)⟩

end

end Runs
