import ContainerRs.Lib.Runs
import Mathlib.Data.List.Basic

/-!
# The Shared Runtime of the Synchronous API

The synchronous API (sync_runner.rs, sync_container.rs) runs the asynchronous one on a runtime
that all containers share: a global `Weak` leads to it, the calls of `SyncRunner::start` and
`pull_image` and the `Container`s hold the strong references, and the runtime goes down with the
last one. It has a single worker thread. `block_on_runtime` refuses to block on a runtime from
inside it, and `drop_shared_runtime` hands a reference to a thread of its own, which it joins,
when its caller is inside any runtime.

The module models any number of overlapping calls, from threads outside all runtimes, inside a
runtime of somebody else, on a thread of a shared runtime (a log consumer), or inside the future
that another call blocks on (a callback of an image), as interleaved atomic steps. The shutdown of
a runtime waits for its threads. A future may need the worker of its runtime or not: it may end
while a thread of the runtime is busy, but nobody may count on that, and `Stuck` does not.

## Main results

* `RuntimeInv.of_step`: the strong count is the number of holders, and only the runtime that the
  global `Weak` leads to has any.
* `sharedRuntime_exact`: so it is in every run, and no call blocks on the runtime it is inside.
* `sharedRuntime_progress`: some call can go on, if no thread of a runtime has dropped the last
  reference to it.
* `ownThread_hangs`: one that has waits for itself for ever.
-/

namespace ContainerRs

/-! ### The parties -/

/-- Where the thread of a call is: in no runtime, in one of somebody else, a thread of the `k`-th
shared runtime, or in the future that call `j` blocks on. -/
inductive RuntimeCtx
  | outside
  | foreign
  | thread (k : ℕ)
  | within (j : ℕ)
  deriving DecidableEq, Repr

/-- What is called: `SyncRunner::start` or `pull_image`, a method of container `c` (`use`), its
`rm`, or its `Drop`. -/
inductive SyncJob
  | start
  | pullImage
  | use (c : ℕ)
  | rm (c : ℕ)
  | drop (c : ℕ)
  deriving DecidableEq, Repr

/-- The call has a reference of its own: `rm` and `Drop` that of the container they consume. -/
def SyncJob.owns : SyncJob → Bool
  | .use _ => false
  | _ => true

/-- Where a call stands: in front of `shared_runtime`, of `block_on_runtime`, inside `block_on`, in
front of `drop_shared_runtime`, waiting for the shutdown, or returned. -/
inductive SharedPc
  | acquire
  | enter (k : ℕ)
  | blocking (k : ℕ)
  | release (k : ℕ) (ok : Bool)
  | shutdown (k : ℕ) (ok : Bool)
  | returned (ok : Bool)
  deriving DecidableEq, Repr

/-- The runtime a call is concerned with. -/
def SharedPc.runtime : SharedPc → Option ℕ
  | .enter k | .blocking k | .release k _ | .shutdown k _ => some k
  | _ => none

/-- The runtime of which a call has a reference in its hands. -/
def SharedPc.referring : SharedPc → Option ℕ
  | .enter k | .blocking k | .release k _ => some k
  | _ => none

def SharedPc.Active : SharedPc → Bool
  | .returned _ => false
  | _ => true

/-- A call; `born` is the number of runtimes that had been built when it began. -/
structure SyncCall where
  ctx : RuntimeCtx
  job : SyncJob
  pc : SharedPc
  born : ℕ
  deriving DecidableEq, Repr

/-- The runtime to which a call has a strong reference of its own. -/
def SyncCall.holds (c : SyncCall) : Option ℕ := if c.job.owns then c.pc.referring else none

/-- The strong counts of the runtimes built so far, the global `Weak`, the runtime of each
`Container` (`none`: consumed), and the calls. -/
structure RuntimeSystem where
  strong : List ℕ
  weak : Option ℕ
  containers : List (Option ℕ)
  calls : List SyncCall
  deriving DecidableEq, Repr

/-- A call begins, or makes one of its steps; `built` and `ok` tell whether the runtime can be
built and whether the future succeeds. -/
inductive SyncAction
  | begin (ctx : RuntimeCtx) (job : SyncJob)
  | acquire (i : ℕ) (built : Bool)
  | enter (i : ℕ)
  | finish (i : ℕ) (ok : Bool)
  | release (i : ℕ)
  | join (i : ℕ)
  deriving DecidableEq, Repr

/-- The call a step is one of. -/
def SyncAction.call : SyncAction → Option ℕ
  | .begin _ _ => none
  | .acquire i _ | .enter i | .finish i _ | .release i | .join i => some i

namespace RuntimeSystem

/-! ### The steps -/

def init : RuntimeSystem := ⟨[], none, [], []⟩

/-- Move call `i` on. -/
def goto (s : RuntimeSystem) (i : ℕ) (c : SyncCall) (pc : SharedPc) : RuntimeSystem :=
  { s with calls := s.calls.set i { c with pc } }

/-- `Handle::try_current`: no runtime, one of somebody else, or a shared one. -/
def tryCurrent (s : RuntimeSystem) : RuntimeCtx → Option (Option ℕ)
  | .outside => none
  | .foreign => some none
  | .thread k => some (some k)
  | .within j =>
      match s.calls[j]? with
      | some ⟨_, _, .blocking k, _⟩ => some (some k)
      | _ => none

/-- `is_reentering_shared_runtime`. -/
def isReentering (s : RuntimeSystem) (ctx : RuntimeCtx) (k : ℕ) : Bool :=
  s.tryCurrent ctx = some (some k)

/-- A call is in progress on a thread of runtime `k`. -/
def ThreadBusy (s : RuntimeSystem) (k : ℕ) : Bool :=
  s.calls.any fun c => c.pc.Active && c.ctx = .thread k

/-- A call is in progress inside the future of call `i`. -/
def WithinBusy (s : RuntimeSystem) (i : ℕ) : Bool :=
  s.calls.any fun c => c.pc.Active && c.ctx = .within i

/-- A method of container `c` is in progress. -/
def Borrowed (s : RuntimeSystem) (c : ℕ) : Bool :=
  s.calls.any fun d => d.pc.Active && d.job = .use c

/-- A thread can be where it is. -/
def ctxOk (s : RuntimeSystem) : RuntimeCtx → Bool
  | .outside | .foreign => true
  | .thread k => k < s.strong.length
  | .within j => (s.tryCurrent (.within j)).isSome

/-- A new call. -/
def push (s : RuntimeSystem) (ctx : RuntimeCtx) (job : SyncJob) (pc : SharedPc) : RuntimeSystem :=
  { s with calls := s.calls ++ [⟨ctx, job, pc, s.strong.length⟩] }

/-- The first step of a call: `rm` and `Drop` consume the container, which nobody borrows. -/
def begin (s : RuntimeSystem) (ctx : RuntimeCtx) : SyncJob → Option RuntimeSystem
  | .start => some (s.push ctx .start .acquire)
  | .pullImage => some (s.push ctx .pullImage .acquire)
  | .use c =>
      match s.containers[c]? with
      | some (some k) => some (s.push ctx (.use c) (.enter k))
      | _ => none
  | .rm c =>
      match s.containers[c]? with
      | some (some k) =>
          if s.Borrowed c then none
          else some (push { s with containers := s.containers.set c none } ctx (.rm c) (.enter k))
      | _ => none
  | .drop c =>
      match s.containers[c]? with
      | some (some k) =>
          if s.Borrowed c then none
          else
            some (push { s with containers := s.containers.set c none } ctx (.drop c)
              (.release k true))
      | _ => none

/-- `shared_runtime`: upgrade the global `Weak`, or build a runtime and store it there. -/
def sharedRuntime (s : RuntimeSystem) (built : Bool) : Option (ℕ × RuntimeSystem) :=
  match s.weak, s.weak.bind fun k => s.strong[k]? with
  | some k, some (n + 1) => some (k, { s with strong := s.strong.set k (n + 2) })
  | _, _ =>
      if built then
        some (s.strong.length,
          { s with strong := s.strong ++ [1], weak := some s.strong.length })
      else none

/-- Where a call goes that has its result: to drop its reference, if it has one. -/
def afterwards (c : SyncCall) (k : ℕ) (ok : Bool) : SharedPc :=
  if c.job.owns then .release k ok else .returned ok

/-- One step of the system. A `start` that succeeds moves the reference of the call into the new
container. -/
def step (s : RuntimeSystem) : SyncAction → Option RuntimeSystem
  | .begin ctx job => if s.ctxOk ctx then s.begin ctx job else none
  | .acquire i built =>
      s.calls[i]?.bind fun c =>
        match c.pc with
        | .acquire =>
            match s.sharedRuntime built with
            | some (k, s) => some (s.goto i c (.enter k))
            | none => some (s.goto i c (.returned false))
        | _ => none
  | .enter i =>
      s.calls[i]?.bind fun c =>
        match c.pc with
        | .enter k =>
            if s.isReentering c.ctx k then some (s.goto i c (afterwards c k false))
            else some (s.goto i c (.blocking k))
        | _ => none
  | .finish i ok =>
      s.calls[i]?.bind fun c =>
        match c.pc with
        | .blocking k =>
            if s.WithinBusy i then none
            else if c.job = .start && ok then
              let s : RuntimeSystem := { s with containers := s.containers ++ [some k] }
              some (s.goto i c (.returned true))
            else some (s.goto i c (afterwards c k ok))
        | _ => none
  | .release i =>
      s.calls[i]?.bind fun c =>
        match c.pc with
        | .release k ok =>
            match s.strong[k]? with
            | some (n + 1) =>
                let s : RuntimeSystem := { s with strong := s.strong.set k n }
                some (s.goto i c (if n = 0 then .shutdown k ok else .returned ok))
            | _ => none
        | _ => none
  | .join i =>
      s.calls[i]?.bind fun c =>
        match c.pc with
        | .shutdown k ok => if s.ThreadBusy k then none else some (s.goto i c (.returned ok))
        | _ => none

/-! ### Counting the references -/

/-- Replacing an element of a list changes a count by its share. By induction on the list,
down to the element. -/
theorem countP_set_add {α : Type*} (p : α → Bool) {l : List α} {i : ℕ} {a : α} (h : l[i]? = some a)
    (b : α) : (l.set i b).countP p + (if p a then 1 else 0) =
      l.countP p + if p b then 1 else 0 := by
  induction l generalizing i with
  | nil => simp at h
  | cons x l ih =>
      cases i with
      | zero =>
          obtain rfl : x = a := Option.some.inj h
          rw [List.set_cons_zero, List.countP_cons, List.countP_cons]
          omega
      | succ i =>
          have hrest := ih (i := i) h
          rw [List.set_cons_succ, List.countP_cons, List.countP_cons]
          omega

/-- How many hold a strong reference to runtime `k`. -/
def refs (s : RuntimeSystem) (k : ℕ) : ℕ :=
  s.calls.countP (fun c => c.holds = some k) + s.containers.countP (fun r => r = some k)

/-- The strong count of runtime `k`. -/
def count (s : RuntimeSystem) (k : ℕ) : ℕ := s.strong[k]?.getD 0

/-- What is known of a call: what it holds and borrows, that the runtimes it deals with are not
older than its thread, and that it does not block on the runtime it is inside. -/
structure CallOk (s : RuntimeSystem) (c : SyncCall) : Prop where
  owned : (c.pc = .acquire ∨ ∃ k ok, c.pc = .release k ok) → c.job.owns = true
  born : c.born ≤ s.strong.length
  runtime : ∀ k, c.pc.runtime = some k → k < s.strong.length ∧ c.born ≤ k + 1
  thread : ∀ k, c.ctx = .thread k → k < c.born
  within : ∀ j, c.ctx = .within j → c.pc.Active = true →
    ∃ (d : SyncCall) (k : ℕ), s.calls[j]? = some d ∧ d.pc = .blocking k ∧ k < c.born
  reentry : ∀ k, c.pc = .blocking k → s.isReentering c.ctx k = false
  borrowed : ∀ a k, c.job = .use a → c.pc.runtime = some k → s.containers[a]? = some (some k)
  shutdown : ∀ k ok, c.pc = .shutdown k ok → s.strong[k]? = some 0

/-- The strong count is the number of holders, the global `Weak` leads to the newest runtime, and
the older ones have gone down. -/
structure RuntimeInv (s : RuntimeSystem) : Prop where
  counts : ∀ k, s.count k = s.refs k
  latest : ∀ k, s.weak = some k ↔ k + 1 = s.strong.length
  dead : ∀ k, k + 1 < s.strong.length → s.strong[k]? = some 0
  call : ∀ (i : ℕ) (c : SyncCall), s.calls[i]? = some c → s.CallOk c

variable {s s' : RuntimeSystem} {i : ℕ} {c : SyncCall} {pc : SharedPc}

/-- In the beginning there is no runtime and no call. -/
theorem runtimeInv_init : init.RuntimeInv where
  counts := by simp [init, count, refs]
  latest := by simp [init]
  dead := by simp [init]
  call := by simp [init]

/-- The calls once one of them has moved on. -/
theorem getElem_goto (hc : s.calls[i]? = some c) (pc : SharedPc) (j : ℕ) :
    (s.goto i c pc).calls[j]? = if j = i then some { c with pc } else s.calls[j]? := by
  have hlt : i < s.calls.length := (List.getElem?_eq_some_iff.mp hc).1
  rw [goto, List.getElem?_set]
  by_cases hj : i = j
  · rw [if_pos hj, if_pos hlt, if_pos hj.symm]
  · rw [if_neg hj, if_neg (Ne.symm hj)]

/-- Moving a call on changes the number of holders by its share. -/
theorem refs_goto (hc : s.calls[i]? = some c) (pc : SharedPc) (k : ℕ) :
    (s.goto i c pc).refs k + (if c.holds = some k then 1 else 0) =
      s.refs k + if SyncCall.holds { c with pc } = some k then 1 else 0 := by
  have h := countP_set_add (fun c => decide (c.holds = some k)) hc { c with pc }
  simp only [decide_eq_true_eq] at h
  simp only [refs, goto]
  omega

/-- The counts once one of them has been set. -/
theorem count_set (s : RuntimeSystem) {k : ℕ} (hk : k < s.strong.length) (n j : ℕ) :
    count { s with strong := s.strong.set k n } j = if j = k then n else s.count j := by
  simp only [count, List.getElem?_set]
  by_cases hj : k = j
  · subst hj
    simp [hk]
  · rw [if_neg hj, if_neg (Ne.symm hj)]

/-- The thread of a call that blocks on a runtime is inside that runtime. -/
theorem tryCurrent_within {j k : ℕ} {d : SyncCall} (hd : s.calls[j]? = some d)
    (hpc : d.pc = .blocking k) : s.tryCurrent (.within j) = some (some k) := by
  obtain ⟨ctx, job, pc, born⟩ := d
  obtain rfl : pc = .blocking k := hpc
  rw [tryCurrent, hd]

/-- A call that has blocked on a runtime, or is about to, keeps it alive. It holds a
reference itself, or the container does whose method it is. -/
theorem RuntimeInv.alive (h : s.RuntimeInv) (hc : s.calls[i]? = some c) {k : ℕ}
    (hk : c.pc.referring = some k) : 0 < s.count k := by
  rw [h.counts, refs]
  cases howns : c.job.owns with
  | true =>
      have hpos : 0 < s.calls.countP (fun c => c.holds = some k) := by
        rw [List.countP_pos_iff]
        exact ⟨c, List.mem_of_getElem? hc, by simp [SyncCall.holds, howns, hk]⟩
      omega
  | false =>
      obtain ⟨a, ha⟩ : ∃ a, c.job = .use a := by
        cases hjob : c.job <;> simp_all [SyncJob.owns]
      have hruntime : c.pc.runtime = some k := by
        cases hpc : c.pc <;> simp_all [SharedPc.referring, SharedPc.runtime]
      have hcontainer := (h.call i c hc).borrowed a k ha hruntime
      have hpos : 0 < s.containers.countP (fun r => r = some k) := by
        rw [List.countP_pos_iff]
        exact ⟨some k, List.mem_of_getElem? hcontainer, by simp⟩
      omega

/-- What is known of a call survives a change that keeps what it relies on. One case for
each thread that the call can be on. -/
theorem CallOk.frame (h : s.CallOk c) (hlength : s.strong.length ≤ s'.strong.length)
    (hzero : ∀ k : ℕ, s.strong[k]? = some 0 → s'.strong[k]? = some 0)
    (hcalls : c.pc.Active = true → ∀ (j : ℕ) (d : SyncCall) (k : ℕ), c.ctx = .within j →
      s.calls[j]? = some d → d.pc = .blocking k →
        ∃ d', s'.calls[j]? = some d' ∧ d'.pc = .blocking k)
    (hcontainers : c.pc.Active = true → ∀ a k : ℕ, c.job = .use a →
      s.containers[a]? = some (some k) → s'.containers[a]? = some (some k)) : s'.CallOk c where
  owned := h.owned
  born := Nat.le_trans h.born hlength
  runtime := fun k hk => ⟨Nat.lt_of_lt_of_le (h.runtime k hk).1 hlength, (h.runtime k hk).2⟩
  thread := h.thread
  within := by
    intro j hj hactive
    obtain ⟨d, k, hd, hpc, hborn⟩ := h.within j hj hactive
    obtain ⟨d', hd', hpc'⟩ := hcalls hactive j d k hj hd hpc
    exact ⟨d', k, hd', hpc', hborn⟩
  reentry := by
    intro k hpc
    have hold := h.reentry k hpc
    cases hctx : c.ctx with
    | within j =>
        obtain ⟨d, k', hd, hdpc, -⟩ := h.within j hctx (by simp [hpc, SharedPc.Active])
        obtain ⟨d', hd', hdpc'⟩ := hcalls (by simp [hpc, SharedPc.Active]) j d k' hctx hd hdpc
        rw [hctx, isReentering, tryCurrent_within hd hdpc] at hold
        rw [isReentering, tryCurrent_within hd' hdpc']
        exact hold
    | _ => rwa [hctx] at hold
  borrowed := by
    intro a k ha hk
    refine hcontainers ?_ a k ha (h.borrowed a k ha hk)
    cases hpc : c.pc <;> simp_all [SharedPc.runtime, SharedPc.Active]
  shutdown := fun k ok hpc => hzero k (h.shutdown k ok hpc)

/-- A call in progress is known to be in order at its next step if the step is. -/
theorem CallOk.move (h : s.CallOk c) (hactive : c.pc.Active = true)
    (howned : (pc = .acquire ∨ ∃ k ok, pc = .release k ok) → c.job.owns = true)
    (hruntime : ∀ k, pc.runtime = some k → k < s.strong.length ∧ c.born ≤ k + 1)
    (hreentry : ∀ k, pc = .blocking k → s.isReentering c.ctx k = false)
    (hborrowed : c.job.owns = false → ∀ k, pc.runtime = some k → c.pc.runtime = some k)
    (hshutdown : ∀ k ok, pc = .shutdown k ok → s.strong[k]? = some 0) :
    s.CallOk { c with pc } where
  owned := howned
  born := h.born
  runtime := hruntime
  thread := h.thread
  within := fun j hj _ => h.within j hj hactive
  reentry := hreentry
  borrowed := fun a k (ha : c.job = .use a) hk =>
    h.borrowed a k ha (hborrowed (by rw [ha, SyncJob.owns]) k hk)
  shutdown := hshutdown

/-- **The rule for a step of a call**: it moves on, and leaves the future it blocks on only when
nobody is inside any more. -/
theorem RuntimeInv.move (h : s.RuntimeInv) (hc : s.calls[i]? = some c) (s₁ : RuntimeSystem)
    (hcalls : s₁.calls = s.calls) (hcounts : ∀ k, s₁.count k = (s₁.goto i c pc).refs k)
    (hlatest : ∀ k, s₁.weak = some k ↔ k + 1 = s₁.strong.length)
    (hdead : ∀ k : ℕ, k + 1 < s₁.strong.length → s₁.strong[k]? = some 0)
    (hlength : s.strong.length ≤ s₁.strong.length)
    (hzero : ∀ k : ℕ, s.strong[k]? = some 0 → s₁.strong[k]? = some 0)
    (hcontainers : ∀ a k : ℕ, s.containers[a]? = some (some k) → s₁.containers[a]? = some (some k))
    (hleave : ∀ k, c.pc = .blocking k → s.WithinBusy i = false)
    (hself : (s₁.goto i c pc).CallOk c → (s₁.goto i c pc).CallOk { c with pc }) :
    (s₁.goto i c pc).RuntimeInv := by
  have hc₁ : s₁.calls[i]? = some c := hcalls ▸ hc
  have hframe : ∀ (j : ℕ) (d : SyncCall), s.calls[j]? = some d → (s₁.goto i c pc).CallOk d := by
    intro j d hd
    refine (h.call j d hd).frame hlength hzero ?_ fun _ a k _ => hcontainers a k
    intro hactive j' d' k hctx hd' hpc
    rw [getElem_goto hc₁]
    by_cases hj' : j' = i
    · subst hj'
      obtain rfl : c = d' := Option.some.inj (hc.symm.trans hd')
      have hbusy := hleave k hpc
      rw [WithinBusy, List.any_eq_false] at hbusy
      exact absurd (by simp [hactive, hctx]) (hbusy d (List.mem_of_getElem? hd))
    · exact ⟨d', by rw [if_neg hj', hcalls, hd'], hpc⟩
  refine ⟨hcounts, hlatest, hdead, fun j d hd => ?_⟩
  rw [getElem_goto hc₁] at hd
  split at hd
  · obtain rfl := Option.some.inj hd
    exact hself (hframe i c hc)
  · rw [hcalls] at hd
    exact hframe j d hd

/-- A step that leaves the counts as they are. -/
theorem RuntimeInv.quiet (h : s.RuntimeInv) (hc : s.calls[i]? = some c)
    (hholds : SyncCall.holds { c with pc } = c.holds)
    (hleave : ∀ k, c.pc = .blocking k → s.WithinBusy i = false)
    (hself : (s.goto i c pc).CallOk c → (s.goto i c pc).CallOk { c with pc }) :
    (s.goto i c pc).RuntimeInv := by
  refine h.move hc s rfl (fun k => ?_) h.latest h.dead (Nat.le_refl _) (fun _ hk => hk)
    (fun _ _ ha => ha) hleave hself
  have hrefs := refs_goto hc pc k
  rw [hholds] at hrefs
  have hcount := h.counts k
  omega

/-- Where a call goes behind its future, it refers to no other runtime. -/
theorem runtime_afterwards {k j : ℕ} {ok : Bool} (h : (afterwards c k ok).runtime = some j) :
    j = k := by
  rw [afterwards] at h
  split at h
  · exact (Option.some.inj h).symm
  · exact absurd h (by simp [SharedPc.runtime])

/-- A call that has its result is in order. It returns, or it has still to drop its
reference. -/
theorem CallOk.afterwards (h : s.CallOk c) {k : ℕ} (hk : c.pc.runtime = some k) (ok : Bool) :
    s.CallOk { c with pc := afterwards c k ok } := by
  have hactive : c.pc.Active = true := by
    cases hpc : c.pc <;> simp_all [SharedPc.runtime, SharedPc.Active]
  refine h.move hactive ?_ (fun j hj => ?_) ?_ (fun _ j hj => ?_) ?_
  · rintro (hpc | ⟨j, ok', hpc⟩)
    · rw [RuntimeSystem.afterwards] at hpc
      split at hpc <;> simp at hpc
    · rw [RuntimeSystem.afterwards] at hpc
      split at hpc
      · next howns => exact howns
      · simp at hpc
  · obtain rfl := runtime_afterwards hj
    exact h.runtime j hk
  · intro j hpc
    rw [RuntimeSystem.afterwards] at hpc
    split at hpc <;> simp at hpc
  · obtain rfl := runtime_afterwards hj
    exact hk
  · intro j ok' hpc
    rw [RuntimeSystem.afterwards] at hpc
    split at hpc <;> simp at hpc

/-- A call that leaves its future still holds its reference, for it is dropped in a step
of its own. -/
theorem holds_afterwards {k : ℕ} (hk : c.pc.referring = some k) (ok : Bool) :
    SyncCall.holds { c with pc := afterwards c k ok } = c.holds := by
  simp only [SyncCall.holds, hk, afterwards]
  split <;> rfl

/-- What `shared_runtime` returns: the newest runtime, which is alive, with one more reference, or
a new one when all those built before have gone down. -/
theorem RuntimeInv.sharedRuntime_cases (h : s.RuntimeInv) {built : Bool} {k : ℕ}
    (hshared : s.sharedRuntime built = some (k, s')) :
    (∃ n, k + 1 = s.strong.length ∧ s.strong[k]? = some (n + 1) ∧
      s' = { s with strong := s.strong.set k (n + 2) }) ∨
    (k = s.strong.length ∧ (∀ j, j < s.strong.length → s.strong[j]? = some 0) ∧
      s' = { s with strong := s.strong ++ [1], weak := some s.strong.length }) := by
  rw [sharedRuntime] at hshared
  split at hshared
  · next k' n hweak hn =>
      obtain ⟨rfl, rfl⟩ := Prod.mk.inj (Option.some.inj hshared)
      rw [hweak, Option.bind_some] at hn
      exact .inl ⟨n, (h.latest k').mp hweak, hn, rfl⟩
  · next hnot =>
      split at hshared
      · obtain ⟨rfl, rfl⟩ := Prod.mk.inj (Option.some.inj hshared)
        refine .inr ⟨rfl, fun j hj => ?_, rfl⟩
        rcases Nat.lt_or_ge (j + 1) s.strong.length with hlt | hge
        · exact h.dead j hlt
        · have hweak : s.weak = some j := (h.latest j).mpr (by omega)
          have hget : s.strong[j]? = some s.strong[j] := List.getElem?_eq_getElem hj
          cases hval : s.strong[j] with
          | zero => rw [hget, hval]
          | succ n => exact absurd (by rw [hweak, Option.bind_some, hget, hval]) (hnot j n hweak)
      · exact absurd hshared (by simp)

/-- A call that gets a runtime counts for one more, or has built a new one; the old one
has gone down by then. -/
theorem RuntimeInv.acquire (h : s.RuntimeInv) (hc : s.calls[i]? = some c) (hpc : c.pc = .acquire)
    {built : Bool} {k : ℕ} (hshared : s.sharedRuntime built = some (k, s')) :
    (s'.goto i c (.enter k)).RuntimeInv := by
  have hok := h.call i c hc
  have howns : c.job.owns = true := hok.owned (.inl hpc)
  have hactive : c.pc.Active = true := by rw [hpc]; rfl
  have hleave : ∀ j, c.pc = .blocking j → s.WithinBusy i = false := by simp [hpc]
  have hholds : ∀ j, (s.goto i c (.enter k)).refs j = s.refs j + if k = j then 1 else 0 := by
    intro j
    have hrefs := refs_goto hc (.enter k) j
    simpa [SyncCall.holds, howns, hpc, SharedPc.referring] using hrefs
  rcases h.sharedRuntime_cases hshared with ⟨n, hlatest, hn, rfl⟩ | ⟨rfl, hnone, rfl⟩
  · have hlt : k < s.strong.length := by omega
    have hlength : (s.strong.set k (n + 2)).length = s.strong.length := List.length_set
    refine h.move hc { s with strong := s.strong.set k (n + 2) } rfl (fun j => ?_) ?_ ?_
      (Nat.le_of_eq hlength.symm) ?_ (fun _ _ ha => ha) hleave fun hself => ?_
    · rw [count_set s hlt]
      change _ = (s.goto i c (.enter k)).refs j
      rw [hholds, ← h.counts j]
      by_cases hj : j = k
      · subst hj
        simp [count, hn]
      · rw [if_neg hj, if_neg (Ne.symm hj), Nat.add_zero]
    · rw [hlength]
      exact h.latest
    · intro j hj
      rw [hlength] at hj
      rw [List.getElem?_set_ne (by omega)]
      exact h.dead j hj
    · intro j hj
      rw [List.getElem?_set_ne, hj]
      rintro rfl
      exact absurd (hn.symm.trans hj) (by simp)
    · refine hself.move hactive (by simp) ?_ (by simp) (by simp [howns]) (by simp)
      rintro j ⟨⟩
      exact ⟨hlength ▸ hlt, Nat.le_trans hok.born (Nat.le_of_eq hlatest.symm)⟩
  · have hlength : (s.strong ++ [1]).length = s.strong.length + 1 := by
      rw [List.length_append, List.length_singleton]
    refine h.move hc
      { s with strong := s.strong ++ [1], weak := some s.strong.length } rfl (fun j => ?_) ?_ ?_
      (by rw [hlength]; omega) ?_ (fun _ _ ha => ha) hleave fun hself => ?_
    · change (s.strong ++ [1])[j]?.getD 0 = (s.goto i c (.enter s.strong.length)).refs j
      rw [hholds, ← h.counts j, count]
      rcases Nat.lt_trichotomy j s.strong.length with hlt | rfl | hgt
      · rw [List.getElem?_append_left hlt, if_neg (by omega), Nat.add_zero]
      · simp
      · rw [List.getElem?_eq_none (by rw [hlength]; omega), List.getElem?_eq_none (by omega),
          if_neg (by omega), Nat.add_zero]
    · intro j
      rw [hlength]
      constructor
      · intro hj
        rw [Option.some.inj hj]
      · intro hj
        rw [Nat.succ.inj hj]
    · intro j hj
      rw [hlength] at hj
      rw [List.getElem?_append_left (by omega)]
      exact hnone j (by omega)
    · intro j hj
      rw [List.getElem?_append_left (List.getElem?_eq_some_iff.mp hj).1, hj]
    · refine hself.move hactive (by simp) ?_ (by simp) (by simp [howns]) (by simp)
      rintro j ⟨⟩
      exact ⟨by rw [goto, hlength]; omega, Nat.le_succ_of_le hok.born⟩

/-- Moving another call on does not change where a call is. -/
theorem isReentering_goto (hok : s.CallOk c) (hc : s.calls[i]? = some c)
    (hactive : c.pc.Active = true) (hnot : ∀ k, c.pc ≠ .blocking k) (pc : SharedPc) (k : ℕ) :
    (s.goto i c pc).isReentering c.ctx k = s.isReentering c.ctx k := by
  cases hctx : c.ctx with
  | within j =>
      obtain ⟨d, k', hd, hpc, -⟩ := hok.within j hctx hactive
      have hj : j ≠ i := by
        rintro rfl
        obtain rfl := Option.some.inj (hc.symm.trans hd)
        exact hnot k' hpc
      have hd' : (s.goto i c pc).calls[j]? = some d := by rw [getElem_goto hc, if_neg hj, hd]
      rw [isReentering, isReentering, tryCurrent_within hd hpc, tryCurrent_within hd' hpc]
  | _ => rfl

/-- A call enters its future only when its thread is inside no runtime, or another one.
Otherwise it fails at once and drops its reference again. -/
theorem RuntimeInv.enter (h : s.RuntimeInv) (hc : s.calls[i]? = some c) {k : ℕ}
    (hpc : c.pc = .enter k) (hstep : s.step (.enter i) = some s') : s'.RuntimeInv := by
  have hactive : c.pc.Active = true := by rw [hpc]; rfl
  have hruntime : c.pc.runtime = some k := by rw [hpc]; rfl
  have hreferring : c.pc.referring = some k := by rw [hpc]; rfl
  have hleave : ∀ j, c.pc = .blocking j → s.WithinBusy i = false := by simp [hpc]
  rw [step, hc, Option.bind_some, hpc] at hstep
  dsimp only at hstep
  split at hstep
  · obtain rfl := Option.some.inj hstep
    exact h.quiet hc (holds_afterwards hreferring false) hleave fun hself =>
      hself.afterwards hruntime false
  · next hreentry =>
      obtain rfl := Option.some.inj hstep
      refine h.quiet hc ?_ hleave fun hself => ?_
      · simp [SyncCall.holds, hpc, SharedPc.referring]
      · refine hself.move hactive (by simp) ?_ ?_ ?_ (by simp)
        · rintro j ⟨⟩
          exact hself.runtime k hruntime
        · rintro j ⟨⟩
          rw [isReentering_goto (h.call i c hc) hc hactive (by simp [hpc])]
          exact Bool.eq_false_iff.mpr hreentry
        · rintro - j ⟨⟩
          exact hruntime

/-- A call whose future ends hands its reference over to a new container, or keeps it for
the moment. -/
theorem RuntimeInv.finish (h : s.RuntimeInv) (hc : s.calls[i]? = some c) {k : ℕ} {ok : Bool}
    (hpc : c.pc = .blocking k) (hstep : s.step (.finish i ok) = some s') : s'.RuntimeInv := by
  have hactive : c.pc.Active = true := by rw [hpc]; rfl
  have hruntime : c.pc.runtime = some k := by rw [hpc]; rfl
  have hreferring : c.pc.referring = some k := by rw [hpc]; rfl
  rw [step, hc, Option.bind_some, hpc] at hstep
  dsimp only at hstep
  split at hstep
  · exact absurd hstep (by simp)
  · next hbusy =>
      have hleave : ∀ j, c.pc = .blocking j → s.WithinBusy i = false := by
        intro j _
        exact Bool.eq_false_iff.mpr hbusy
      split at hstep
      · next hstart =>
          obtain rfl := Option.some.inj hstep
          have howns : c.job.owns = true := by
            simp only [Bool.and_eq_true, decide_eq_true_eq] at hstart
            rw [hstart.1]
            rfl
          refine h.move hc { s with containers := s.containers ++ [some k] } rfl (fun j => ?_)
            h.latest h.dead (Nat.le_refl _) (fun _ hk => hk) ?_ hleave fun hself => ?_
          · have hrefs := refs_goto hc (.returned true) j
            have hcount := h.counts j
            simp only [SyncCall.holds, howns, hpc, SharedPc.referring, if_true] at hrefs
            change s.count j = (s.goto i c (.returned true)).calls.countP _ +
              (s.containers ++ [some k]).countP _
            rw [List.countP_append, List.countP_singleton]
            simp only [refs, goto, decide_eq_true_eq] at hrefs hcount ⊢
            simp only [reduceCtorEq, if_false] at hrefs
            omega
          · intro a j ha
            have hlt := (List.getElem?_eq_some_iff.mp ha).1
            rw [List.getElem?_append_left hlt, ha]
          · exact hself.move hactive (by simp) (by simp [SharedPc.runtime]) (by simp)
              (by simp [SharedPc.runtime]) (by simp)
      · obtain rfl := Option.some.inj hstep
        exact h.quiet hc (holds_afterwards hreferring ok) hleave fun hself =>
          hself.afterwards hruntime ok

/-- A call that drops its reference counts for one less, and shuts the runtime down if it
was the last. -/
theorem RuntimeInv.release (h : s.RuntimeInv) (hc : s.calls[i]? = some c) {k n : ℕ} {ok : Bool}
    (hpc : c.pc = .release k ok) (hn : s.strong[k]? = some (n + 1)) :
    (RuntimeSystem.goto { s with strong := s.strong.set k n } i c
      (if n = 0 then .shutdown k ok else .returned ok)).RuntimeInv := by
  have hok := h.call i c hc
  have howns : c.job.owns = true := hok.owned (.inr ⟨k, ok, hpc⟩)
  have hactive : c.pc.Active = true := by rw [hpc]; rfl
  have hruntime : c.pc.runtime = some k := by rw [hpc]; rfl
  have hlt : k < s.strong.length := (List.getElem?_eq_some_iff.mp hn).1
  have hlength : (s.strong.set k n).length = s.strong.length := List.length_set
  refine h.move hc { s with strong := s.strong.set k n } rfl (fun j => ?_) ?_ ?_
    (Nat.le_of_eq hlength.symm) ?_ (fun _ _ ha => ha) (by simp [hpc]) fun hself => ?_
  · rw [count_set s hlt]
    have hrefs := refs_goto hc (if n = 0 then .shutdown k ok else .returned ok) j
    have hnone : SyncCall.holds
        { c with pc := if n = 0 then .shutdown k ok else .returned ok } = none := by
      simp only [SyncCall.holds, howns, if_true]
      split <;> rfl
    have hcount := h.counts j
    rw [hnone] at hrefs
    simp only [SyncCall.holds, howns, hpc, SharedPc.referring, if_true, reduceCtorEq,
      if_false, Option.some.injEq] at hrefs
    change _ = (s.goto i c _).refs j
    by_cases hj : j = k
    · subst hj
      rw [count, hn, Option.getD_some] at hcount
      rw [if_pos rfl] at hrefs ⊢
      omega
    · rw [if_neg (Ne.symm hj)] at hrefs
      rw [if_neg hj]
      omega
  · rw [hlength]
    exact h.latest
  · intro j hj
    rw [hlength] at hj
    have hne : k ≠ j := by
      rintro rfl
      exact absurd (hn.symm.trans (h.dead k hj)) (by simp)
    rw [List.getElem?_set_ne hne]
    exact h.dead j hj
  · intro j hj
    rw [List.getElem?_set_ne, hj]
    rintro rfl
    exact absurd (hn.symm.trans hj) (by simp)
  · refine hself.move hactive ?_ ?_ ?_ (by simp [howns]) ?_
    · split <;> simp
    · intro j hj
      split at hj
      · obtain rfl := Option.some.inj hj
        exact hself.runtime k hruntime
      · exact absurd hj (by simp [SharedPc.runtime])
    · intro j hj
      split at hj <;> simp at hj
    · intro j ok' hj
      split at hj
      · next hzero =>
          obtain ⟨rfl, rfl⟩ := SharedPc.shutdown.inj hj
          change (s.strong.set k n)[k]? = some 0
          rw [List.getElem?_set_self hlt, hzero]
      · exact absurd hj (by simp)

/-- A call that has waited for the shutdown holds nothing any more. -/
theorem RuntimeInv.join (h : s.RuntimeInv) (hc : s.calls[i]? = some c) {k : ℕ} {ok : Bool}
    (hpc : c.pc = .shutdown k ok) : (s.goto i c (.returned ok)).RuntimeInv := by
  refine h.quiet hc ?_ (by simp [hpc]) fun hself => ?_
  · simp [SyncCall.holds, hpc, SharedPc.referring]
  · exact hself.move (by rw [hpc]; rfl) (by simp) (by simp [SharedPc.runtime]) (by simp)
      (by simp [SharedPc.runtime]) (by simp)

/-- A runtime that somebody holds is the newest one. -/
theorem RuntimeInv.newest (h : s.RuntimeInv) {k : ℕ} (hk : 0 < s.count k) :
    k + 1 = s.strong.length := by
  have hlt : k < s.strong.length := by
    by_contra hge
    rw [count, List.getElem?_eq_none (by omega)] at hk
    exact absurd hk (by simp)
  by_contra hne
  rw [count, h.dead k (by omega)] at hk
  exact absurd hk (by simp)

/-- A container belongs to the newest runtime, for it holds a reference. -/
theorem RuntimeInv.newest_of_container (h : s.RuntimeInv) {a k : ℕ}
    (ha : s.containers[a]? = some (some k)) : k + 1 = s.strong.length := by
  refine h.newest ?_
  have hpos : 0 < s.containers.countP (fun r => r = some k) := by
    rw [List.countP_pos_iff]
    exact ⟨some k, List.mem_of_getElem? ha, by simp⟩
  rw [h.counts, refs]
  omega

/-- The future that a thread is in is run on the newest runtime. -/
theorem RuntimeInv.within_of_ctxOk (h : s.RuntimeInv) {j : ℕ} (hctx : s.ctxOk (.within j) = true) :
    ∃ d k, s.calls[j]? = some d ∧ d.pc = .blocking k ∧ k < s.strong.length := by
  obtain ⟨r, hr⟩ := Option.isSome_iff_exists.mp hctx
  rw [tryCurrent] at hr
  split at hr
  · next ctx job k born hd =>
      refine ⟨_, k, hd, rfl, ?_⟩
      have hnewest := h.newest (h.alive hd rfl)
      omega
  · exact absurd hr (by simp)

/-- **The rule for a call that begins.** The references are those from before and perhaps
the one it holds; the calls from before are where they were. -/
theorem RuntimeInv.push (h : s.RuntimeInv) {ctx : RuntimeCtx} {job : SyncJob}
    (hctx : s.ctxOk ctx = true) (containers : List (Option ℕ))
    (hcounts : ∀ k, s.refs k = s.calls.countP (fun c => c.holds = some k) +
      containers.countP (fun r => r = some k) +
      if SyncCall.holds ⟨ctx, job, pc, s.strong.length⟩ = some k then 1 else 0)
    (hcontainers : ∀ d ∈ s.calls, d.pc.Active = true → ∀ a k : ℕ, d.job = .use a →
      s.containers[a]? = some (some k) → containers[a]? = some (some k))
    (howned : (pc = .acquire ∨ ∃ k ok, pc = .release k ok) → job.owns = true)
    (hruntime : ∀ k, pc.runtime = some k → k + 1 = s.strong.length)
    (hborrowed : ∀ a k, job = .use a → pc.runtime = some k → containers[a]? = some (some k))
    (hbegins : (∀ k, pc ≠ .blocking k) ∧ ∀ k ok, pc ≠ .shutdown k ok) :
    (RuntimeSystem.push { s with containers := containers } ctx job pc).RuntimeInv where
  counts := by
    intro k
    refine (h.counts k).trans ?_
    change _ = (s.calls ++ [_]).countP _ + containers.countP _
    rw [List.countP_append, List.countP_singleton]
    have hk := hcounts k
    simp only [decide_eq_true_eq] at hk ⊢
    omega
  latest := h.latest
  dead := h.dead
  call := by
    have happend : ∀ (j : ℕ) (d : SyncCall), s.calls[j]? = some d →
        (s.calls ++ [⟨ctx, job, pc, s.strong.length⟩])[j]? = some d := by
      intro j d hd
      rw [List.getElem?_append_left (List.getElem?_eq_some_iff.mp hd).1, hd]
    intro j d hd
    change (s.calls ++ [⟨ctx, job, pc, s.strong.length⟩])[j]? = some d at hd
    rw [List.getElem?_append] at hd
    split at hd
    · refine (h.call j d hd).frame (Nat.le_refl _) (fun _ hk => hk) ?_
        (hcontainers d (List.mem_of_getElem? hd))
      exact fun _ j' d' k _ hd' hpc => ⟨d', happend j' d' hd', hpc⟩
    · obtain rfl := List.mem_singleton.mp (List.mem_of_getElem? hd)
      refine ⟨howned, Nat.le_refl _, fun k hk => ?_, ?_, ?_, ?_, hborrowed, ?_⟩
      · have hnewest := hruntime k hk
        change k < s.strong.length ∧ s.strong.length ≤ k + 1
        omega
      · rintro k rfl
        exact of_decide_eq_true hctx
      · rintro j' rfl -
        obtain ⟨d', k, hd', hpc, hlt⟩ := h.within_of_ctxOk hctx
        exact ⟨d', k, happend j' d' hd', hpc, hlt⟩
      · intro k hk
        exact absurd hk (hbegins.1 k)
      · intro k ok hk
        exact absurd hk (hbegins.2 k ok)

/-- What a consumed container held, its call holds. -/
theorem countP_consume {a k : ℕ} (ha : s.containers[a]? = some (some k)) (j : ℕ) :
    s.containers.countP (fun r => r = some j) =
      (s.containers.set a none).countP (fun r => r = some j) + if k = j then 1 else 0 := by
  have h := countP_set_add (fun r => decide (r = some j)) ha none
  simp only [decide_eq_true_eq, Option.some.injEq, reduceCtorEq, if_false] at h
  omega

/-- Nobody borrows a container that is consumed. -/
theorem containers_of_not_borrowed {a : ℕ} (hborrowed : ¬ s.Borrowed a = true) :
    ∀ d ∈ s.calls, d.pc.Active = true → ∀ b k : ℕ, d.job = .use b →
      s.containers[b]? = some (some k) → (s.containers.set a none)[b]? = some (some k) := by
  intro d hd hactive b k hjob hb
  rw [List.getElem?_set_ne, hb]
  rintro rfl
  rw [Bool.not_eq_true, RuntimeSystem.Borrowed, List.any_eq_false] at hborrowed
  exact absurd (by simp [hactive, hjob]) (hborrowed d hd)

/-- A call that begins takes the reference over from its container, if it is to drop
it. -/
theorem RuntimeInv.begin (h : s.RuntimeInv) {ctx : RuntimeCtx} {job : SyncJob}
    (hctx : s.ctxOk ctx = true) (hstep : s.begin ctx job = some s') : s'.RuntimeInv := by
  cases job with
  | start =>
      obtain rfl := Option.some.inj hstep
      exact h.push hctx s.containers (by simp [refs, SyncCall.holds, SharedPc.referring])
        (fun _ _ _ _ _ _ ha => ha) (fun _ => rfl) (by simp [SharedPc.runtime]) (by simp) (by simp)
  | pullImage =>
      obtain rfl := Option.some.inj hstep
      exact h.push hctx s.containers (by simp [refs, SyncCall.holds, SharedPc.referring])
        (fun _ _ _ _ _ _ ha => ha) (fun _ => rfl) (by simp [SharedPc.runtime]) (by simp) (by simp)
  | use a =>
      rw [RuntimeSystem.begin] at hstep
      split at hstep
      · next k ha =>
          obtain rfl := Option.some.inj hstep
          refine h.push hctx s.containers (by simp [refs, SyncCall.holds, SyncJob.owns])
            (fun _ _ _ _ _ _ hb => hb) (by simp) ?_ ?_ (by simp)
          · rintro j ⟨⟩
            exact h.newest_of_container ha
          · rintro b j ⟨⟩ ⟨⟩
            exact ha
      · exact absurd hstep (by simp)
  | rm a =>
      rw [RuntimeSystem.begin] at hstep
      split at hstep
      · next k ha =>
          split at hstep
          · exact absurd hstep (by simp)
          · next hborrowed =>
              obtain rfl := Option.some.inj hstep
              refine h.push hctx (s.containers.set a none) (fun j => ?_)
                (containers_of_not_borrowed hborrowed) (fun _ => rfl) ?_ (by simp) (by simp)
              · rw [refs, countP_consume ha j, ← Nat.add_assoc]
                simp [SyncCall.holds, SyncJob.owns, SharedPc.referring]
              · rintro j ⟨⟩
                exact h.newest_of_container ha
      · exact absurd hstep (by simp)
  | drop a =>
      rw [RuntimeSystem.begin] at hstep
      split at hstep
      · next k ha =>
          split at hstep
          · exact absurd hstep (by simp)
          · next hborrowed =>
              obtain rfl := Option.some.inj hstep
              refine h.push hctx (s.containers.set a none) (fun j => ?_)
                (containers_of_not_borrowed hborrowed) (fun _ => rfl) ?_ (by simp) (by simp)
              · rw [refs, countP_consume ha j, ← Nat.add_assoc]
                simp [SyncCall.holds, SyncJob.owns, SharedPc.referring]
              · rintro j ⟨⟩
                exact h.newest_of_container ha
      · exact absurd hstep (by simp)

/-- **Every step keeps the account of the references.** One case for each action, by the
rules above. -/
theorem RuntimeInv.of_step (h : s.RuntimeInv) {a : SyncAction} (hstep : s.step a = some s') :
    s'.RuntimeInv := by
  cases a with
  | begin ctx job =>
      rw [step] at hstep
      split at hstep
      · next hctx => exact h.begin hctx hstep
      · exact absurd hstep (by simp)
  | acquire i built =>
      obtain ⟨c, hc, hcall⟩ := Option.bind_eq_some_iff.mp hstep
      split at hcall
      · next hpc =>
          split at hcall
          · next k s₁ hshared =>
              obtain rfl := Option.some.inj hcall
              exact h.acquire hc hpc hshared
          · obtain rfl := Option.some.inj hcall
            refine h.quiet hc ?_ (by simp [hpc]) fun hself => ?_
            · simp [SyncCall.holds, hpc, SharedPc.referring]
            · exact hself.move (by rw [hpc]; rfl) (by simp) (by simp [SharedPc.runtime]) (by simp)
                (by simp [SharedPc.runtime]) (by simp)
      · exact absurd hcall (by simp)
  | enter i =>
      obtain ⟨c, hc, hcall⟩ := Option.bind_eq_some_iff.mp hstep
      split at hcall
      · next k hpc => exact h.enter hc hpc hstep
      · exact absurd hcall (by simp)
  | finish i ok =>
      obtain ⟨c, hc, hcall⟩ := Option.bind_eq_some_iff.mp hstep
      split at hcall
      · next k hpc => exact h.finish hc hpc hstep
      · exact absurd hcall (by simp)
  | release i =>
      obtain ⟨c, hc, hcall⟩ := Option.bind_eq_some_iff.mp hstep
      split at hcall
      · next k ok hpc =>
          split at hcall
          · next n hn =>
              obtain rfl := Option.some.inj hcall
              exact h.release hc hpc hn
          · exact absurd hcall (by simp)
      · exact absurd hcall (by simp)
  | join i =>
      obtain ⟨c, hc, hcall⟩ := Option.bind_eq_some_iff.mp hstep
      split at hcall
      · next k ok hpc =>
          split at hcall
          · exact absurd hcall (by simp)
          · obtain rfl := Option.some.inj hcall
            exact h.join hc hpc
      · exact absurd hcall (by simp)

/-! ### Progress -/

/-- **The invariant holds in every state that a run reaches.** -/
theorem runtimeInv_of_run {as : List SyncAction} (hrun : Runs.run step init as = some s) :
    s.RuntimeInv :=
  Runs.invariant_of_run (fun _ _ _ h hs => h.of_step hs) runtimeInv_init hrun

/-- **One runtime, with an exact count.** In every run of overlapping calls the strong count of a
runtime is the number of the calls and containers that hold it, so that it has gone down when
nobody needs it; at most one runtime is alive, the one the global `Weak` leads to; and no call
blocks on the runtime its thread is inside. -/
theorem sharedRuntime_exact {as : List SyncAction} (hrun : Runs.run step init as = some s) :
    (∀ k, s.count k = s.refs k) ∧
    (∀ k, 0 < s.count k → s.weak = some k) ∧
    ∀ (i : ℕ) (c : SyncCall) (k : ℕ), s.calls[i]? = some c → c.pc = .blocking k →
      s.tryCurrent c.ctx ≠ some (some k) := by
  have h := runtimeInv_of_run hrun
  refine ⟨h.counts, fun k hk => (h.latest k).mpr (h.newest hk), fun i c k hc hpc => ?_⟩
  exact of_decide_eq_false ((h.call i c hc).reentry k hpc)

/-- Call `i` is in progress. -/
def InProgress (s : RuntimeSystem) (i : ℕ) : Prop :=
  ∃ c, s.calls[i]? = some c ∧ c.pc.Active = true

/-- Call `i` blocks on a future whose runtime has its thread busy with another call. If the future
needs the worker it does not end before that call has returned. -/
def AwaitsWorker (s : RuntimeSystem) (i : ℕ) : Prop :=
  ∃ (c : SyncCall) (k : ℕ), s.calls[i]? = some c ∧ c.pc = .blocking k ∧ s.ThreadBusy k = true

/-- Call `i` cannot be relied on to make a step of its own: it can make none, or it may need a
worker that is busy. -/
def Stuck (s : RuntimeSystem) (i : ℕ) : Prop :=
  s.AwaitsWorker i ∨ ∀ a : SyncAction, a.call = some i → s.step a = none

/-- No thread of a runtime waits for the shutdown of that runtime. -/
def NoOwnShutdown (s : RuntimeSystem) : Prop :=
  ∀ (i : ℕ) (c : SyncCall) (k : ℕ) (ok : Bool), s.calls[i]? = some c → c.pc = .shutdown k ok →
    c.ctx ≠ .thread k

/-- A stuck call blocks on a runtime, or waits for its shutdown, and a call that is in progress on
a thread of that runtime or in that future is in its way. -/
theorem RuntimeInv.waits (h : s.RuntimeInv) (hc : s.calls[i]? = some c)
    (hactive : c.pc.Active = true) (hstuck : s.Stuck i) :
    ∃ k, c.pc.runtime = some k ∧ (c.pc = .blocking k ∨ ∃ ok, c.pc = .shutdown k ok) ∧
      ∃ (j : ℕ) (d : SyncCall), s.calls[j]? = some d ∧ d.pc.Active = true ∧
        (d.ctx = .thread k ∨ c.pc = .blocking k ∧ d.ctx = .within i) := by
  have hin {p : SyncCall → Bool} (hany : s.calls.any (fun d => d.pc.Active && p d) = true) :
      ∃ (j : ℕ) (d : SyncCall), s.calls[j]? = some d ∧ d.pc.Active = true ∧ p d = true := by
    obtain ⟨d, hd, hbusy⟩ := List.any_eq_true.mp hany
    obtain ⟨j, hj⟩ := List.getElem?_of_mem hd
    exact ⟨j, d, hj, Bool.and_eq_true_iff.mp hbusy⟩
  rcases hstuck with ⟨c', k, hc', hpc, hbusy⟩ | hstuck
  · obtain rfl := Option.some.inj (hc.symm.trans hc')
    obtain ⟨j, d, hd, hactive, hctx⟩ := hin hbusy
    exact ⟨k, by rw [hpc]; rfl, .inl hpc, j, d, hd, hactive, .inl (of_decide_eq_true hctx)⟩
  cases hpc : c.pc with
  | acquire =>
      have hnone := hstuck (.acquire i true) rfl
      rw [step, hc, Option.bind_some, hpc] at hnone
      dsimp only at hnone
      split at hnone <;> exact absurd hnone (by simp)
  | enter k =>
      have hnone := hstuck (.enter i) rfl
      rw [step, hc, Option.bind_some, hpc] at hnone
      dsimp only at hnone
      split at hnone <;> exact absurd hnone (by simp)
  | blocking k =>
      have hnone := hstuck (.finish i false) rfl
      rw [step, hc, Option.bind_some, hpc] at hnone
      dsimp only at hnone
      split at hnone
      · next hbusy =>
          obtain ⟨j, d, hd, hactive, hctx⟩ := hin hbusy
          exact ⟨k, rfl, .inl rfl, j, d, hd, hactive, .inr ⟨rfl, of_decide_eq_true hctx⟩⟩
      · split at hnone <;> exact absurd hnone (by simp)
  | release k ok =>
      have hnone := hstuck (.release i) rfl
      have hcount := h.alive hc (k := k) (by rw [hpc]; rfl)
      rw [step, hc, Option.bind_some, hpc] at hnone
      dsimp only at hnone
      rw [count] at hcount
      cases hstrong : s.strong[k]? with
      | none => simp [hstrong] at hcount
      | some n =>
          cases n with
          | zero => simp [hstrong] at hcount
          | succ n =>
              rw [hstrong] at hnone
              exact absurd hnone (by simp)
  | shutdown k ok =>
      have hnone := hstuck (.join i) rfl
      rw [step, hc, Option.bind_some, hpc] at hnone
      dsimp only at hnone
      split at hnone
      · next hbusy =>
          obtain ⟨j, d, hd, hactive, hctx⟩ := hin hbusy
          exact ⟨k, rfl, .inr ⟨ok, rfl⟩, j, d, hd, hactive, .inl (of_decide_eq_true hctx)⟩
      · exact absurd hnone (by simp)
  | returned ok =>
      rw [hpc] at hactive
      exact absurd hactive (by simp [SharedPc.Active])

/-- The runtime a call deals with, as its rank. -/
def rank (s : RuntimeSystem) (i : ℕ) : ℕ := ((s.calls[i]?.bind fun c => c.pc.runtime).getD 0)

/-- Who is in the way of a stuck call, and is stuck itself, deals with a newer runtime: it began
when the older one had been built, it does not block on the runtime it is inside, and a runtime
that somebody blocks on has not gone down. -/
theorem RuntimeInv.rank_lt (h : s.RuntimeInv) (hown : s.NoOwnShutdown)
    (hc : s.calls[i]? = some c) {k j : ℕ} {d : SyncCall} (hk : c.pc.runtime = some k)
    (hd : s.calls[j]? = some d) (hactive : d.pc.Active = true)
    (hway : d.ctx = .thread k ∨ c.pc = .blocking k ∧ d.ctx = .within i) (hstuck : s.Stuck j) :
    s.rank i < s.rank j := by
  have hok := h.call j d hd
  obtain ⟨k', hk', hwait, -⟩ := h.waits hd hactive hstuck
  have hranks : s.rank i = k ∧ s.rank j = k' := by
    constructor
    · rw [rank, hc, Option.bind_some, hk, Option.getD_some]
    · rw [rank, hd, Option.bind_some, hk', Option.getD_some]
  obtain ⟨hlt, hborn⟩ := hok.runtime k' hk'
  have hne : k' ≠ k := by
    rintro rfl
    rcases hway with hthread | ⟨hblocking, hwithin⟩
    · rcases hwait with hpc | ⟨ok, hpc⟩
      · exact absurd (hok.reentry k' hpc) (by rw [isReentering, hthread]; simp [tryCurrent])
      · exact hown j d k' ok hd hpc hthread
    · rcases hwait with hpc | ⟨ok, hpc⟩
      · refine absurd (hok.reentry k' hpc) ?_
        rw [isReentering, hwithin, tryCurrent_within hc hblocking]
        simp
      · have hpos := h.alive hc (k := k') (by rw [hblocking]; rfl)
        rw [count, hok.shutdown k' ok hpc] at hpos
        exact absurd hpos (by simp)
  have hkborn : k < d.born := by
    rcases hway with hthread | ⟨hblocking, hwithin⟩
    · exact hok.thread k hthread
    · obtain ⟨c', k₁, hc', hpc', hlt'⟩ := hok.within i hwithin hactive
      obtain rfl := Option.some.inj (hc.symm.trans hc')
      obtain rfl := SharedPc.blocking.inj (hblocking.symm.trans hpc')
      exact hlt'
  omega

/-- A call that waits for the shutdown of the runtime whose thread it is on waits for
ever. The shutdown waits for the threads of the runtime, of which one is busy with this
very call; so no step leads on, by induction on the run. -/
theorem ownThread_hangs {k : ℕ} {ok : Bool} (hc : s.calls[i]? = some c)
    (hpc : c.pc = .shutdown k ok) (hctx : c.ctx = .thread k) {as : List SyncAction}
    (hrun : Runs.run step s as = some s') : s'.calls[i]? = some c := by
  suffices hkeeps : ∀ (t : RuntimeSystem) (a : SyncAction) (t' : RuntimeSystem),
      t.calls[i]? = some c → t.step a = some t' → t'.calls[i]? = some c from
    Runs.invariant_of_run hkeeps hc hrun
  intro t a t' ht hstep
  have hmoved : ∀ (t₁ : RuntimeSystem) (j : ℕ) (d : SyncCall) (pc : SharedPc),
      t₁.calls = t.calls → t.calls[j]? = some d → d.pc ≠ .shutdown k ok →
        (t₁.goto j d pc).calls[i]? = some c := by
    intro t₁ j d pc hcalls hd hne
    rw [getElem_goto (hcalls ▸ hd), hcalls, if_neg, ht]
    rintro rfl
    obtain rfl := Option.some.inj (ht.symm.trans hd)
    exact hne hpc
  have hbusy : t.ThreadBusy k = true :=
    List.any_eq_true.mpr ⟨c, List.mem_of_getElem? ht, by simp [hpc, hctx, SharedPc.Active]⟩
  have hlt : i < t.calls.length := (List.getElem?_eq_some_iff.mp ht).1
  cases a with
  | begin ctx job =>
      rw [step] at hstep
      split at hstep
      · obtain ⟨d, hd⟩ : ∃ d, t'.calls = t.calls ++ [d] := by
          cases job <;> rw [RuntimeSystem.begin] at hstep <;> (repeat' split at hstep) <;>
            first
            | exact ⟨_, (congrArg RuntimeSystem.calls (Option.some.inj hstep)).symm⟩
            | exact absurd hstep (by simp)
        rw [hd, List.getElem?_append_left hlt, ht]
      · exact absurd hstep (by simp)
  | acquire j built =>
      obtain ⟨d, hd, hcall⟩ := Option.bind_eq_some_iff.mp hstep
      split at hcall
      · next hdpc =>
          split at hcall
          · next k' t₁ hshared =>
              obtain rfl := Option.some.inj hcall
              have hcalls : t₁.calls = t.calls := by
                rw [sharedRuntime] at hshared
                split at hshared
                · rw [← (Prod.mk.inj (Option.some.inj hshared)).2]
                · split at hshared
                  · rw [← (Prod.mk.inj (Option.some.inj hshared)).2]
                  · exact absurd hshared (by simp)
              exact hmoved t₁ j d _ hcalls hd (by simp [hdpc])
          · obtain rfl := Option.some.inj hcall
            exact hmoved t j d _ rfl hd (by simp [hdpc])
      · exact absurd hcall (by simp)
  | enter j =>
      obtain ⟨d, hd, hcall⟩ := Option.bind_eq_some_iff.mp hstep
      split at hcall
      · next hdpc =>
          split at hcall <;> obtain rfl := Option.some.inj hcall <;>
            exact hmoved t j d _ rfl hd (by simp [hdpc])
      · exact absurd hcall (by simp)
  | finish j ok' =>
      obtain ⟨d, hd, hcall⟩ := Option.bind_eq_some_iff.mp hstep
      split at hcall
      · next hdpc =>
          split at hcall
          · exact absurd hcall (by simp)
          · split at hcall <;> obtain rfl := Option.some.inj hcall
            · exact hmoved { t with containers := _ } j d _ rfl hd (by simp [hdpc])
            · exact hmoved t j d _ rfl hd (by simp [hdpc])
      · exact absurd hcall (by simp)
  | release j =>
      obtain ⟨d, hd, hcall⟩ := Option.bind_eq_some_iff.mp hstep
      split at hcall
      · next hdpc =>
          split at hcall
          · obtain rfl := Option.some.inj hcall
            exact hmoved { t with strong := _ } j d _ rfl hd (by simp [hdpc])
          · exact absurd hcall (by simp)
      · exact absurd hcall (by simp)
  | join j =>
      obtain ⟨d, hd, hcall⟩ := Option.bind_eq_some_iff.mp hstep
      split at hcall
      · next k' ok' hdpc =>
          split at hcall
          · exact absurd hcall (by simp)
          · next hidle =>
              obtain rfl := Option.some.inj hcall
              refine hmoved t j d _ rfl hd fun hsame => hidle ?_
              obtain ⟨rfl, -⟩ := SharedPc.shutdown.inj (hdpc.symm.trans hsame)
              exact hbusy
      · exact absurd hcall (by simp)

/-- **The synchronous API makes progress, but for one case.** In every state that overlapping
calls can reach: unless some thread of a runtime waits for the shutdown of that very runtime, some
call in progress can make its next step, and without a worker that is busy; and a thread that
waits for the shutdown of its own runtime does so in every state that follows. -/
theorem sharedRuntime_progress {as : List SyncAction} (hrun : Runs.run step init as = some s) :
    (s.NoOwnShutdown → (∃ i, s.InProgress i) →
      ∃ i a s', s.InProgress i ∧ ¬ s.AwaitsWorker i ∧ a.call = some i ∧ s.step a = some s') ∧
    ∀ (i : ℕ) (c : SyncCall) (k : ℕ) (ok : Bool), s.calls[i]? = some c →
      c.pc = .shutdown k ok → c.ctx = .thread k →
        ∀ (bs : List SyncAction) (t : RuntimeSystem), Runs.run step s bs = some t →
          t.calls[i]? = some c := by
  refine ⟨fun hown hbusy => ?_, fun i c k ok hc hpc hctx bs t ht => ownThread_hangs hc hpc hctx ht⟩
  have h := runtimeInv_of_run hrun
  have hfree : ∃ i, s.InProgress i ∧ ¬ s.Stuck i := by
    refine Runs.exists_not_blocked s.rank s.strong.length ?_ hbusy
    rintro i ⟨c, hc, hactive⟩ hstuck
    obtain ⟨k, hk, -, j, d, hd, hdactive, hway⟩ := h.waits hc hactive hstuck
    refine ⟨?_, j, ⟨d, hd, hdactive⟩, h.rank_lt hown hc hk hd hdactive hway⟩
    rw [rank, hc, Option.bind_some, hk, Option.getD_some]
    exact ((h.call i c hc).runtime k hk).1
  obtain ⟨i, hi, hnot⟩ := hfree
  obtain ⟨hworker, hstep⟩ := not_or.mp hnot
  obtain ⟨a, ha⟩ := not_forall.mp hstep
  obtain ⟨hcall, hsome⟩ := Classical.not_imp.mp ha
  obtain ⟨s', hs'⟩ := Option.ne_none_iff_exists'.mp hsome
  exact ⟨i, a, s', hi, hworker, hcall, hs'⟩

/-- A container is started and dropped by a log consumer on the thread of the runtime, while a
second container is started. -/
def droppedByConsumer : List SyncAction :=
  [.begin .outside .start, .acquire 0 true, .enter 0, .finish 0 true,
    .begin (.thread 0) (.drop 0), .release 1, .begin .foreign .start, .acquire 2 true, .enter 2]

/-- The consumer waits for itself; the second call has a runtime of its own. -/
theorem sharedRuntime_exact_droppedByConsumer :
    ∃ s, Runs.run step init droppedByConsumer = some s ∧ s.count 0 = s.refs 0 ∧
      s.weak = some 1 ∧ s.tryCurrent .foreign ≠ some (some 1) := by
  have hrun : Runs.run step init droppedByConsumer = some _ := rfl
  have h := sharedRuntime_exact hrun
  exact ⟨_, rfl, h.1 0, h.2.1 1 (by decide), h.2.2 2 _ 1 rfl rfl⟩

/-- It never returns; while the first call blocks, there is a call that can go on. Both
statements are runs of the schedule, evaluated. -/
theorem sharedRuntime_progress_droppedByConsumer :
    (∃ s c, Runs.run step init droppedByConsumer = some s ∧ s.calls[1]? = some c ∧
      c.pc = .shutdown 0 true ∧
      ∀ bs t, Runs.run step s bs = some t → t.calls[1]? = some c) ∧
    ∃ s a s', Runs.run step init (droppedByConsumer.take 3) = some s ∧ ¬ s.AwaitsWorker 0 ∧
      a.call = some 0 ∧ s.step a = some s' := by
  have hrun : Runs.run step init droppedByConsumer = some _ := rfl
  have hblocks : Runs.run step init (droppedByConsumer.take 3) = some _ := rfl
  refine ⟨⟨_, _, rfl, rfl, rfl, (sharedRuntime_progress hrun).2 1 _ 0 true rfl rfl rfl⟩, ?_⟩
  have hcall : ∀ (i : ℕ) (c : SyncCall), [(⟨.outside, .start, .blocking 0, 0⟩ : SyncCall)][i]? =
      some c → i = 0 ∧ c = ⟨.outside, .start, .blocking 0, 0⟩ := by
    intro i c hc
    cases i with
    | zero => exact ⟨rfl, (Option.some.inj hc).symm⟩
    | succ i => exact nomatch hc
  obtain ⟨i, a, s', ⟨c, hc, -⟩, hworker, ha, hs'⟩ := (sharedRuntime_progress hblocks).1
    (fun i c k ok hc hpc => by rw [(hcall i c hc).2] at hpc; exact nomatch hpc) ⟨0, _, rfl, rfl⟩
  obtain rfl := (hcall i c hc).1
  exact ⟨_, a, s', rfl, hworker, ha, hs'⟩

end RuntimeSystem

end ContainerRs
