import ContainerRs.Lib.RefCount
import ContainerRs.Lib.Runs

/-!
# Ownership of XPC Replies

A request over XPC waits for its reply until a timeout
(`xpc_bridge_send_message_with_reply_sync`, xpc_bridge.c). The waiting side and the reply block
share a context of two references; a reply may come at any moment, also after the timeout, and
whoever drops the last reference releases a reply that nobody has taken, the semaphore and the
context.

The two parties are interleaved step by step; the steps are the accesses to the context. A
reply is an object of any type, none standing for NULL.

## Main results

* `Counts.of_unref`: dropping a reference follows `Lib.RefCount`.
* `ReplyInv.of_step`: the invariant of a step.
* `xpcReply_ownership_exact`: what is released, returned and touched in any interleaving.
-/

namespace ContainerRs

open Runs

/-! ### The parties -/

/-- Where a party stands in `xpc_bridge_reply_ctx_unref`. -/
inductive UnrefPc
  | fetchSub
  | releaseResult
  | releaseSem
  | free
  | finished
  deriving DecidableEq, Repr

/-- Where the waiting side stands: at the wait, in front of reading the result, of clearing it,
or in the end. `out` is what it will return. -/
inductive WaiterPc (α : Type)
  | waiting
  | takeResult
  | clearResult (out : Option α)
  | unref (out : Option α) (pc : UnrefPc)

/-- Where the reply block stands: not called, with a reply to be stored, in front of the signal,
or in the end. -/
inductive BlockPc (α : Type)
  | pending
  | storing (reply : Option α)
  | signalling
  | unref (pc : UnrefPc)

/-- The context, its parties, and what has happened: how the wait ended, which reply came, which
results were released, how often the semaphore and the context were released, and whether one
of them was touched after that. -/
structure ReplyState (α : Type) where
  refs : ℤ
  result : Option α
  signals : ℕ
  waiter : WaiterPc α
  block : BlockPc α
  waited : Option Bool
  delivered : Option (Option α)
  released : List α
  semReleases : ℕ
  frees : ℕ
  fault : Bool

/-- The steps of the parties. The end of the wait and the reply are chosen from outside. -/
inductive ReplyAction (α : Type)
  | waitSucceeded
  | timedOut
  | waiter
  | reply (reply : Option α)
  | block

namespace ReplyState

variable {α : Type}

/-- The context when the request is sent. -/
def initial : ReplyState α where
  refs := 2
  result := none
  signals := 0
  waiter := .waiting
  block := .pending
  waited := none
  delivered := none
  released := []
  semReleases := 0
  frees := 0
  fault := false

/-- An access to the context. -/
def touchCtx (s : ReplyState α) : ReplyState α := { s with fault := s.fault || s.frees ≠ 0 }

/-- An access to the semaphore, which is found in the context. -/
def touchSem (s : ReplyState α) : ReplyState α :=
  { s with fault := s.fault || s.frees ≠ 0 || s.semReleases ≠ 0 }

/-- A step of `xpc_bridge_reply_ctx_unref`. -/
def unrefStep (s : ReplyState α) : UnrefPc → ReplyState α × UnrefPc
  | .fetchSub =>
      ({ s.touchCtx with refs := s.refs - 1 }, if s.refs = 1 then .releaseResult else .finished)
  | .releaseResult => ({ s.touchCtx with released := s.released ++ s.result.toList }, .releaseSem)
  | .releaseSem => ({ s.touchSem with semReleases := s.semReleases + 1 }, .free)
  | .free => ({ s.touchCtx with frees := s.frees + 1 }, .finished)
  | .finished => (s, .finished)

/-- A step of the waiting side behind the wait. -/
def waiterStep (s : ReplyState α) : Option (ReplyState α) :=
  match s.waiter with
  | .waiting => none
  | .takeResult => some { s.touchCtx with waiter := .clearResult s.result }
  | .clearResult out => some { s.touchCtx with result := none, waiter := .unref out .fetchSub }
  | .unref _ .finished => none
  | .unref out pc => some { (s.unrefStep pc).1 with waiter := .unref out (s.unrefStep pc).2 }

/-- A step of the reply block. -/
def blockStep (s : ReplyState α) : Option (ReplyState α) :=
  match s.block with
  | .pending => none
  | .storing none => some { s with block := .signalling }
  | .storing (some reply) => some { s.touchCtx with result := some reply, block := .signalling }
  | .signalling => some { s.touchSem with signals := s.signals + 1, block := .unref .fetchSub }
  | .unref .finished => none
  | .unref pc => some { (s.unrefStep pc).1 with block := .unref (s.unrefStep pc).2 }

/-- A step of the system. -/
def step (s : ReplyState α) : ReplyAction α → Option (ReplyState α)
  | .waitSucceeded =>
      match s.waiter with
      | .waiting =>
          if 0 < s.signals then
            some { s.touchSem with
              signals := s.signals - 1, waiter := .takeResult, waited := some true }
          else none
      | _ => none
  | .timedOut =>
      match s.waiter with
      | .waiting =>
          some { s.touchSem with waiter := .unref none .fetchSub, waited := some false }
      | _ => none
  | .waiter => s.waiterStep
  | .reply reply =>
      match s.block with
      | .pending => some { s with block := .storing reply, delivered := some reply }
      | _ => none
  | .block => s.blockStep

/-! ### Accesses -/

variable {s s' : ReplyState α}

/-- A context that has not been freed may be touched. -/
theorem touchCtx_eq (h : s.frees = 0) : s.touchCtx = s := by
  have hfault : (s.fault || decide (s.frees ≠ 0)) = s.fault := by simp [h]
  rw [touchCtx, hfault]

/-- So may its semaphore, as long as neither has been released. -/
theorem touchSem_eq (h : s.frees = 0) (hsem : s.semReleases = 0) : s.touchSem = s := by
  have hfault : (s.fault || decide (s.frees ≠ 0) || decide (s.semReleases ≠ 0)) = s.fault := by
    simp [h, hsem]
  rw [touchSem, hfault]

/-- Dropping a reference leaves the result to whoever takes it. -/
@[simp] theorem unrefStep_result (s : ReplyState α) (pc : UnrefPc) :
    (s.unrefStep pc).1.result = s.result := by cases pc <;> rfl

/-- It does not signal. -/
@[simp] theorem unrefStep_signals (s : ReplyState α) (pc : UnrefPc) :
    (s.unrefStep pc).1.signals = s.signals := by cases pc <;> rfl

/-- It leaves the waiting side where it stands. -/
@[simp] theorem unrefStep_waiter (s : ReplyState α) (pc : UnrefPc) :
    (s.unrefStep pc).1.waiter = s.waiter := by cases pc <;> rfl

/-- It leaves the block where it stands. -/
@[simp] theorem unrefStep_block (s : ReplyState α) (pc : UnrefPc) :
    (s.unrefStep pc).1.block = s.block := by cases pc <;> rfl

/-- It leaves what the wait has returned. -/
@[simp] theorem unrefStep_waited (s : ReplyState α) (pc : UnrefPc) :
    (s.unrefStep pc).1.waited = s.waited := by cases pc <;> rfl

/-- It delivers nothing. -/
@[simp] theorem unrefStep_delivered (s : ReplyState α) (pc : UnrefPc) :
    (s.unrefStep pc).1.delivered = s.delivered := by cases pc <;> rfl

end ReplyState

/-! ### The reference count -/

/-- The two parties that share the context. -/
inductive ReplyParty
  | waiter
  | block
  deriving DecidableEq

instance : Fintype ReplyParty := ⟨{.waiter, .block}, by rintro (_ | _) <;> decide⟩

instance : Nonempty ReplyParty := ⟨.waiter⟩

/-- Dropping a reference to the context, whose release has three steps. -/
def UnrefPc.place : UnrefPc → RefCount.Place
  | .fetchSub => .holding
  | .releaseResult => .releasing 0
  | .releaseSem => .releasing 1
  | .free => .releasing 2
  | .finished => .gone

/-- A party holds its reference until it drops it. -/
def WaiterPc.pc {α : Type} : WaiterPc α → UnrefPc
  | .unref _ pc => pc
  | _ => .fetchSub

/-- A party holds its reference until it drops it. -/
def BlockPc.pc {α : Type} : BlockPc α → UnrefPc
  | .unref pc => pc
  | _ => .fetchSub

namespace ReplyState

variable {α : Type}

open RefCount

/-- What has been released is what the steps of the release have done. -/
structure Counts (s : ReplyState α) (a : Shared ReplyParty) : Prop where
  refs : s.refs = a.refs
  released : s.released = if 1 ≤ a.released then s.result.toList else []
  semReleases : s.semReleases = if 2 ≤ a.released then 1 else 0
  frees : s.frees = if 3 ≤ a.released then 1 else 0

variable {s s' : ReplyState α} {a : Shared ReplyParty}

/-- Before the release the context and the semaphore are there, and nothing was released. -/
theorem Counts.intact (h : Counts s a) (hreleased : a.released = 0) :
    s.frees = 0 ∧ s.semReleases = 0 ∧ s.released = [] := by
  refine ⟨?_, ?_, ?_⟩
  · rw [h.frees, hreleased]
    rfl
  · rw [h.semReleases, hreleased]
    rfl
  · rw [h.released, hreleased]
    rfl

/-- **Dropping a reference** is what the reference count says, and touches nothing that has
been released. -/
theorem Counts.of_unref (h : Counts s a) (ha : Inv 3 a) {p : ReplyParty} {pc : UnrefPc}
    (hp : a.place p = pc.place) (hpc : pc ≠ .finished) :
    ∃ a', drop 3 a p = some a' ∧ Counts (s.unrefStep pc).1 a' ∧
      a'.place p = (s.unrefStep pc).2.place ∧ (s.unrefStep pc).1.fault = s.fault := by
  cases pc with
  | fetchSub =>
      have hzero := ha.released_of_holding p hp
      have hctx := touchCtx_eq (h.intact hzero).1
      refine ⟨_, drop_of_holding hp, ⟨?_, h.released, h.semReleases, h.frees⟩, ?_, ?_⟩
      · exact congrArg (· - 1) h.refs
      · dsimp only
        rw [Function.update_self, unrefStep, h.refs]
        split <;> rfl
      · rw [unrefStep, hctx]
  | releaseResult =>
      have hzero : a.released = 0 := (ha.of_releasing p 0 hp).2.1
      have hctx := touchCtx_eq (h.intact hzero).1
      refine ⟨_, drop_of_releasing hp, ⟨h.refs, ?_, ?_, ?_⟩, ?_, ?_⟩
      · rw [unrefStep, hctx, (h.intact hzero).2.2, hzero]
        rfl
      · rw [unrefStep, hctx, (h.intact hzero).2.1, hzero]
        rfl
      · rw [unrefStep, hctx, (h.intact hzero).1, hzero]
        rfl
      · exact Function.update_self ..
      · rw [unrefStep, hctx]
  | releaseSem =>
      have hone : a.released = 1 := (ha.of_releasing p 1 hp).2.1
      have hfrees : s.frees = 0 := by rw [h.frees, hone]; rfl
      have hsem : s.semReleases = 0 := by rw [h.semReleases, hone]; rfl
      have htouch := touchSem_eq hfrees hsem
      have hreleased := h.released
      rw [hone] at hreleased
      refine ⟨_, drop_of_releasing hp, ⟨h.refs, ?_, ?_, ?_⟩, ?_, ?_⟩
      · rw [unrefStep, htouch, hreleased, hone]
        rfl
      · rw [unrefStep, htouch, hsem, hone]
        rfl
      · rw [unrefStep, htouch, hfrees, hone]
        rfl
      · exact Function.update_self ..
      · rw [unrefStep, htouch]
  | free =>
      have htwo : a.released = 2 := (ha.of_releasing p 2 hp).2.1
      have hfrees : s.frees = 0 := by rw [h.frees, htwo]; rfl
      have hctx := touchCtx_eq hfrees
      have hreleased := h.released
      have hsem := h.semReleases
      rw [htwo] at hreleased hsem
      refine ⟨_, drop_of_releasing hp, ⟨h.refs, ?_, ?_, ?_⟩, ?_, ?_⟩
      · rw [unrefStep, hctx, hreleased, htwo]
        rfl
      · rw [unrefStep, hctx, hsem, htwo]
        rfl
      · rw [unrefStep, hctx, hfrees, htwo]
        rfl
      · exact Function.update_self ..
      · rw [unrefStep, hctx]
  | finished => exact absurd rfl hpc

/-! ### The invariant -/

/-- The result that the block has stored. -/
def stored (s : ReplyState α) : Option α :=
  match s.block with
  | .pending | .storing _ => none
  | .signalling | .unref _ => s.delivered.join

/-- How often the block has signalled. -/
def signalled (s : ReplyState α) : ℕ :=
  match s.block with
  | .unref _ => 1
  | _ => 0

/-- The reply that the block works on. -/
def BlockHasReply (s : ReplyState α) : Prop :=
  match s.block with
  | .pending => s.delivered = none
  | .storing reply => s.delivered = some reply
  | _ => s.delivered ≠ none

/-- Where the stored result is: in the context, or with the waiting side once it has taken it. -/
def ResultKept (s : ReplyState α) : Prop :=
  match s.waiter with
  | .waiting => s.waited = none ∧ s.result = s.stored
  | .takeResult => s.waited = some true ∧ s.result = s.stored
  | .clearResult out => s.waited = some true ∧ s.result = s.stored ∧ out = s.stored
  | .unref out _ =>
      s.waited = some true ∧ s.result = none ∧ out = s.stored ∨
        s.waited = some false ∧ s.result = s.stored ∧ out = none

/-- What holds between the steps, together with the reference count. -/
structure ReplyInv (s : ReplyState α) (a : Shared ReplyParty) : Prop where
  count : Inv 3 a
  counts : Counts s a
  waiterPlace : a.place .waiter = s.waiter.pc.place
  blockPlace : a.place .block = s.block.pc.place
  signals : s.signals + (if s.waited = some true then 1 else 0) = s.signalled
  reply : s.BlockHasReply
  kept : s.ResultKept
  fault : s.fault = false

/-- In the beginning both sides hold a reference, and nothing has been stored. -/
theorem replyInv_initial : ReplyInv (initial : ReplyState α) start where
  count := inv_start 3
  counts := ⟨rfl, rfl, rfl, rfl⟩
  waiterPlace := rfl
  blockPlace := rfl
  signals := rfl
  reply := rfl
  kept := ⟨rfl, rfl⟩
  fault := rfl

/-- The context and the semaphore are there as long as a party has not dropped its
reference. -/
theorem ReplyInv.intact (h : ReplyInv s a) {p : ReplyParty} (hp : a.place p = .holding) :
    a.released = 0 ∧ s.frees = 0 ∧ s.semReleases = 0 := by
  have hzero := h.count.released_of_holding p hp
  exact ⟨hzero, (h.counts.intact hzero).1, (h.counts.intact hzero).2.1⟩

/-- The counts of a context whose release has not begun do not depend on the result. -/
theorem Counts.of_intact (h : Counts s a) (hzero : a.released = 0) (hrefs : s'.refs = s.refs)
    (hreleased : s'.released = s.released) (hsem : s'.semReleases = s.semReleases)
    (hfrees : s'.frees = s.frees) : Counts s' a where
  refs := hrefs.trans h.refs
  released := by
    rw [hreleased, (h.intact hzero).2.2, hzero]
    rfl
  semReleases := hsem.trans h.semReleases
  frees := hfrees.trans h.frees

/-- Whether the result is kept depends on the waiting side and the result alone. -/
theorem ResultKept.congr (h : s.ResultKept) (hwaiter : s'.waiter = s.waiter)
    (hwaited : s'.waited = s.waited) (hresult : s'.result = s.result)
    (hstored : s'.stored = s.stored) : s'.ResultKept := by
  rw [ResultKept] at h ⊢
  rwa [hwaiter, hwaited, hresult, hstored]

/-- A wait that has not succeeded leaves the result where the block stores it. -/
theorem ResultKept.of_store (h : s.ResultKept) (hwaited : s.waited ≠ some true)
    (hwaiter : s'.waiter = s.waiter) (hwaited' : s'.waited = s.waited)
    (hresult : s'.result = s'.stored) : s'.ResultKept := by
  rw [ResultKept] at h ⊢
  rw [hwaiter, hwaited']
  cases hw : s.waiter with
  | waiting =>
      rw [hw] at h
      exact ⟨h.1, hresult⟩
  | takeResult =>
      rw [hw] at h
      exact absurd h.1 hwaited
  | clearResult out =>
      rw [hw] at h
      exact absurd h.1 hwaited
  | unref out pc =>
      rw [hw] at h
      obtain ⟨hfalse, -, hout⟩ := h.resolve_left fun h => hwaited h.1
      exact .inr ⟨hfalse, hresult, hout⟩

/-- The waiting side goes on behind the wait. It takes the result, clears it in the
context, or drops its reference. -/
theorem ReplyInv.of_waiterStep (h : ReplyInv s a) (hstep : s.waiterStep = some s') :
    ∃ a', ReplyInv s' a' := by
  have hkept := h.kept
  rw [ResultKept] at hkept
  rw [waiterStep] at hstep
  split at hstep
  · exact absurd hstep (by simp)
  · next hw =>
      rw [hw] at hkept
      have hintact := h.intact (p := .waiter) (by rw [h.waiterPlace, hw]; rfl)
      rw [touchCtx_eq hintact.2.1] at hstep
      obtain rfl := Option.some.inj hstep
      exact ⟨a, h.count, h.counts.of_intact hintact.1 rfl rfl rfl rfl,
        h.waiterPlace.trans (by rw [hw]; rfl), h.blockPlace, h.signals, h.reply,
        ⟨hkept.1, hkept.2, hkept.2⟩, h.fault⟩
  · next out hw =>
      rw [hw] at hkept
      have hintact := h.intact (p := .waiter) (by rw [h.waiterPlace, hw]; rfl)
      rw [touchCtx_eq hintact.2.1] at hstep
      obtain rfl := Option.some.inj hstep
      exact ⟨a, h.count, h.counts.of_intact hintact.1 rfl rfl rfl rfl,
        h.waiterPlace.trans (by rw [hw]; rfl), h.blockPlace, h.signals, h.reply,
        .inl ⟨hkept.1, rfl, hkept.2.2⟩, h.fault⟩
  · exact absurd hstep (by simp)
  · next out pc hpc hw =>
      rw [hw] at hkept
      have hplace : a.place .waiter = pc.place := by
        rw [h.waiterPlace, hw]
        rfl
      obtain ⟨a', hdrop, hcounts, hplace', hfault⟩ := h.counts.of_unref h.count hplace hpc
      have hblock := place_of_drop (j := .block) hdrop nofun
      obtain rfl := Option.some.inj hstep
      refine ⟨a', h.count.of_drop (by omega) hdrop,
        ⟨hcounts.refs, hcounts.released, hcounts.semReleases, hcounts.frees⟩, hplace', ?_, ?_, ?_,
        ?_, hfault.trans h.fault⟩
      · simpa [hblock] using h.blockPlace
      · simpa [signalled] using h.signals
      · simpa [BlockHasReply] using h.reply
      · simpa [ResultKept, stored] using hkept

/-- The block goes on. -/
theorem ReplyInv.of_blockStep (h : ReplyInv s a) (hstep : s.blockStep = some s') :
    ∃ a', ReplyInv s' a' := by
  have hreply := h.reply
  have hsignals := h.signals
  rw [BlockHasReply] at hreply
  rw [signalled] at hsignals
  rw [blockStep] at hstep
  split at hstep
  · exact absurd hstep (by simp)
  · next hb =>
      rw [hb] at hreply hsignals
      obtain rfl := Option.some.inj hstep
      have hintact := h.intact (p := .block) (by rw [h.blockPlace, hb]; rfl)
      have hstored : s.stored = none := by rw [stored, hb]
      refine ⟨a, h.count, h.counts.of_intact hintact.1 rfl rfl rfl rfl, h.waiterPlace,
        h.blockPlace.trans (by rw [hb]; rfl), hsignals, ?_, h.kept.congr rfl rfl rfl ?_, h.fault⟩
      · exact fun hnone => nomatch hreply.symm.trans hnone
      · rw [hstored]
        exact congrArg Option.join hreply
  · next reply hb =>
      rw [hb] at hreply hsignals
      have hintact := h.intact (p := .block) (by rw [h.blockPlace, hb]; rfl)
      rw [touchCtx_eq hintact.2.1] at hstep
      obtain rfl := Option.some.inj hstep
      have hwaited : s.waited ≠ some true := fun htrue => by simp [htrue] at hsignals
      refine ⟨a, h.count, h.counts.of_intact hintact.1 rfl rfl rfl rfl, h.waiterPlace,
        h.blockPlace.trans (by rw [hb]; rfl), hsignals, ?_, h.kept.of_store hwaited rfl rfl ?_,
        h.fault⟩
      · exact fun hnone => nomatch hreply.symm.trans hnone
      · exact (congrArg Option.join hreply).symm
  · next hb =>
      rw [hb] at hreply hsignals
      have hintact := h.intact (p := .block) (by rw [h.blockPlace, hb]; rfl)
      rw [touchSem_eq hintact.2.1 hintact.2.2] at hstep
      obtain rfl := Option.some.inj hstep
      have hstored : s.stored = s.delivered.join := by rw [stored, hb]
      refine ⟨a, h.count, h.counts.of_intact hintact.1 rfl rfl rfl rfl, h.waiterPlace,
        h.blockPlace.trans (by rw [hb]; rfl), ?_, hreply, h.kept.congr rfl rfl rfl hstored.symm,
        h.fault⟩
      dsimp only [signalled] at hsignals ⊢
      omega
  · exact absurd hstep (by simp)
  · next pc hpc hb =>
      rw [hb] at hreply hsignals
      have hplace : a.place .block = pc.place := by
        rw [h.blockPlace, hb]
        rfl
      obtain ⟨a', hdrop, hcounts, hplace', hfault⟩ := h.counts.of_unref h.count hplace hpc
      have hwaiter := place_of_drop (j := .waiter) hdrop nofun
      have hstored : s.stored = s.delivered.join := by rw [stored, hb]
      obtain rfl := Option.some.inj hstep
      refine ⟨a', h.count.of_drop (by omega) hdrop,
        ⟨hcounts.refs, hcounts.released, hcounts.semReleases, hcounts.frees⟩, ?_, hplace', ?_, ?_,
        h.kept.congr (by simp) (by simp) (by simp) ?_, hfault.trans h.fault⟩
      · simpa [hwaiter] using h.waiterPlace
      · simpa [signalled] using hsignals
      · simpa [BlockHasReply] using hreply
      · simp [stored, hb]

/-- **Every step keeps the invariant.** One case for each action; the reply and the end of
the wait each come once. -/
theorem ReplyInv.of_step (h : ReplyInv s a) {action : ReplyAction α}
    (hstep : step s action = some s') : ∃ a', ReplyInv s' a' := by
  have hkept := h.kept
  have hreply := h.reply
  have hsignals := h.signals
  rw [ResultKept] at hkept
  rw [BlockHasReply] at hreply
  cases action with
  | waitSucceeded =>
      dsimp only [step] at hstep
      split at hstep
      · next hw =>
          split at hstep
          · next hpos =>
              rw [hw] at hkept
              have hintact := h.intact (p := .waiter) (by rw [h.waiterPlace, hw]; rfl)
              rw [touchSem_eq hintact.2.1 hintact.2.2] at hstep
              obtain rfl := Option.some.inj hstep
              refine ⟨a, h.count, h.counts.of_intact hintact.1 rfl rfl rfl rfl,
                h.waiterPlace.trans (by rw [hw]; rfl), h.blockPlace, ?_, h.reply,
                ⟨rfl, hkept.2⟩, h.fault⟩
              rw [hkept.1, if_neg (by simp)] at hsignals
              have hone : s.signals - 1 + 1 = s.signalled := by omega
              exact hone
          · exact absurd hstep (by simp)
      · exact absurd hstep (by simp)
  | timedOut =>
      dsimp only [step] at hstep
      split at hstep
      · next hw =>
          rw [hw] at hkept
          have hintact := h.intact (p := .waiter) (by rw [h.waiterPlace, hw]; rfl)
          rw [touchSem_eq hintact.2.1 hintact.2.2] at hstep
          obtain rfl := Option.some.inj hstep
          refine ⟨a, h.count, h.counts.of_intact hintact.1 rfl rfl rfl rfl,
            h.waiterPlace.trans (by rw [hw]; rfl), h.blockPlace, ?_, h.reply,
            .inr ⟨rfl, hkept.2, rfl⟩, h.fault⟩
          rw [hkept.1] at hsignals
          exact hsignals
      · exact absurd hstep (by simp)
  | waiter => exact h.of_waiterStep hstep
  | reply reply =>
      dsimp only [step] at hstep
      split at hstep
      · next hb =>
          rw [hb] at hreply
          obtain rfl := Option.some.inj hstep
          have hintact := h.intact (p := .block) (by rw [h.blockPlace, hb]; rfl)
          have hstored : s.stored = none := by rw [stored, hb]
          refine ⟨a, h.count, h.counts.of_intact hintact.1 rfl rfl rfl rfl, h.waiterPlace,
            h.blockPlace.trans (by rw [hb]; rfl), ?_, rfl, h.kept.congr rfl rfl rfl hstored.symm,
            h.fault⟩
          rw [signalled, hb] at hsignals
          exact hsignals
      · exact absurd hstep (by simp)
  | block => exact h.of_blockStep hstep

/-- **The invariant holds in every state that a run reaches**, for some state of the
count. -/
theorem exists_replyInv_of_run {as : List (ReplyAction α)} (h : run step initial as = some s) :
    ∃ a, ReplyInv s a := by
  have hsteps : ∀ (s : ReplyState α) (action : ReplyAction α) (s' : ReplyState α),
      (∃ a, ReplyInv s a) → step s action = some s' → ∃ a, ReplyInv s' a := by
    rintro s action s' ⟨a, hinv⟩ hstep
    exact hinv.of_step hstep
  exact invariant_of_run hsteps ⟨_, replyInv_initial⟩ h

/-! ### The end of a run -/

end ReplyState

/-- How many steps of `xpc_bridge_reply_ctx_unref` there can still be. -/
def UnrefPc.left : UnrefPc → ℕ
  | .fetchSub => 4
  | .releaseResult => 3
  | .releaseSem => 2
  | .free => 1
  | .finished => 0

/-- How many steps of the waiting side there can still be. -/
def WaiterPc.left {α : Type} : WaiterPc α → ℕ
  | .waiting => 7
  | .takeResult => 6
  | .clearResult _ => 5
  | .unref _ pc => pc.left

/-- How many steps of the block there can still be. -/
def BlockPc.left {α : Type} : BlockPc α → ℕ
  | .pending => 7
  | .storing _ => 6
  | .signalling => 5
  | .unref pc => pc.left

/-- In front of a step of the release. -/
def UnrefPc.Releasing (pc : UnrefPc) : Prop := pc = .releaseResult ∨ pc = .releaseSem ∨ pc = .free

namespace ReplyState

variable {α : Type} {s s' : ReplyState α}

/-- Each step of a drop leaves fewer to be made. -/
theorem unrefStep_left {pc : UnrefPc} (h : pc ≠ .finished) :
    (s.unrefStep pc).2.left < pc.left := by
  cases pc with
  | fetchSub =>
      rw [unrefStep]
      dsimp only
      split
      · exact Nat.lt_succ_self 3
      · exact Nat.succ_pos 3
  | finished => exact absurd rfl h
  | releaseResult => exact Nat.lt_succ_self 2
  | releaseSem => exact Nat.lt_succ_self 1
  | free => exact Nat.lt_succ_self 0

/-- How many steps there can still be. -/
def left (s : ReplyState α) : ℕ := s.waiter.left + s.block.left

/-- Each step of the waiting side leaves fewer to be made. -/
theorem left_of_waiterStep (h : s.waiterStep = some s') : s'.left < s.left := by
  rw [waiterStep] at h
  split at h
  · exact absurd h (by simp)
  · next hw =>
      obtain rfl := Option.some.inj h
      simp only [left, hw, WaiterPc.left, touchCtx]
      omega
  · next out hw =>
      obtain rfl := Option.some.inj h
      simp only [left, hw, WaiterPc.left, UnrefPc.left, touchCtx]
      omega
  · exact absurd h (by simp)
  · next out pc hpc hw =>
      obtain rfl := Option.some.inj h
      rw [left, left, hw, unrefStep_block]
      exact Nat.add_lt_add_right (unrefStep_left hpc) _

/-- So does each step of the block, and hence every run ends. -/
theorem left_of_blockStep (h : s.blockStep = some s') : s'.left < s.left := by
  rw [blockStep] at h
  split at h
  · exact absurd h (by simp)
  · next hb =>
      obtain rfl := Option.some.inj h
      simp only [left, hb, BlockPc.left]
      omega
  · next reply hb =>
      obtain rfl := Option.some.inj h
      simp only [left, hb, BlockPc.left, touchCtx]
      omega
  · next hb =>
      obtain rfl := Option.some.inj h
      simp only [left, hb, BlockPc.left, UnrefPc.left, touchSem]
      omega
  · exact absurd h (by simp)
  · next pc hpc hb =>
      obtain rfl := Option.some.inj h
      rw [left, left, hb, unrefStep_waiter]
      exact Nat.add_lt_add_left (unrefStep_left hpc) _

/-- Every step leaves fewer of them. One case for each action. -/
theorem left_of_step {action : ReplyAction α} (h : step s action = some s') :
    s'.left < s.left := by
  cases action with
  | waitSucceeded =>
      dsimp only [step] at h
      split at h
      · next hw =>
          split at h
          · obtain rfl := Option.some.inj h
            simp only [left, hw, WaiterPc.left, touchSem]
            omega
          · exact absurd h (by simp)
      · exact absurd h (by simp)
  | timedOut =>
      dsimp only [step] at h
      split at h
      · next hw =>
          obtain rfl := Option.some.inj h
          simp only [left, hw, WaiterPc.left, UnrefPc.left, touchSem]
          omega
      · exact absurd h (by simp)
  | waiter => exact left_of_waiterStep h
  | reply reply =>
      dsimp only [step] at h
      split at h
      · next hb =>
          obtain rfl := Option.some.inj h
          simp only [left, hb, BlockPc.left]
          omega
      · exact absurd h (by simp)
  | block => exact left_of_blockStep h

/-- Where no party can go on, both are done. Everywhere else a party has a step of its
own, and a side that waits can time out. -/
theorem finished_of_stuck (h : ∀ action, step s action = none) :
    (∃ out, s.waiter = .unref out .finished) ∧ s.block = .unref .finished := by
  constructor
  · have htimeout := h .timedOut
    have hwaiter := h .waiter
    dsimp only [step] at htimeout hwaiter
    rw [waiterStep] at hwaiter
    cases hw : s.waiter with
    | waiting =>
        rw [hw] at htimeout
        exact nomatch htimeout
    | takeResult =>
        rw [hw] at hwaiter
        exact nomatch hwaiter
    | clearResult out =>
        rw [hw] at hwaiter
        exact nomatch hwaiter
    | unref out pc =>
        rw [hw] at hwaiter
        cases pc with
        | finished => exact ⟨out, rfl⟩
        | _ => exact nomatch hwaiter
  · have hreply := h (.reply none)
    have hblock := h .block
    dsimp only [step] at hreply hblock
    rw [blockStep] at hblock
    cases hb : s.block with
    | pending =>
        rw [hb] at hreply
        exact nomatch hreply
    | storing reply =>
        rw [hb] at hblock
        cases reply <;> exact nomatch hblock
    | signalling =>
        rw [hb] at hblock
        exact nomatch hblock
    | unref pc =>
        rw [hb] at hblock
        cases pc with
        | finished => rfl
        | _ => exact nomatch hblock

/-! ### Ownership -/

open RefCount

variable {a : Shared ReplyParty}

/-- Without references the context is released, or a party is at it. -/
theorem ReplyInv.refs_eq_zero (h : ReplyInv s a) (hzero : s.refs = 0) :
    s.frees = 1 ∨ s.waiter.pc.Releasing ∨ s.block.pc.Releasing := by
  have hreleasing : ∀ {pc : UnrefPc} {n : ℕ}, pc.place = .releasing n → pc.Releasing := by
    intro pc n hplace
    cases pc with
    | fetchSub => exact nomatch hplace
    | releaseResult => exact .inl rfl
    | releaseSem => exact .inr (.inl rfl)
    | free => exact .inr (.inr rfl)
    | finished => exact nomatch hplace
  rcases h.count.refs_eq_zero (h.counts.refs.symm.trans hzero) with hreleased | ⟨p, n, hp⟩
  · left
    rw [h.counts.frees, hreleased]
    rfl
  · cases p with
    | waiter => exact .inr (.inl (hreleasing (h.waiterPlace.symm.trans hp)))
    | block => exact .inr (.inr (hreleasing (h.blockPlace.symm.trans hp)))

/-- What the waiting side holds it has after a wait that succeeded, and it was not released. -/
theorem ReplyInv.waited_of_out (h : ReplyInv s a) {out : Option α} {pc : UnrefPc}
    (hw : s.waiter = .unref out pc) (hout : out ≠ none) :
    s.waited = some true ∧ s.released = [] := by
  have hkept := h.kept
  rw [ResultKept, hw] at hkept
  rcases hkept with ⟨hwaited, hresult, -⟩ | ⟨-, -, hnone⟩
  · refine ⟨hwaited, ?_⟩
    rw [h.counts.released, hresult]
    split <;> rfl
  · exact absurd hnone hout

/-- Where both parties are done, everything is released once, and the reply is returned or
released. -/
theorem ReplyInv.of_finished (h : ReplyInv s a) {out : Option α}
    (hw : s.waiter = .unref out .finished) (hb : s.block = .unref .finished) :
    s.frees = 1 ∧ s.semReleases = 1 ∧
      ∃ reply, s.delivered = some reply ∧ out.toList ++ s.released = reply.toList := by
  have hreleased : a.released = 3 := by
    refine h.count.released_of_gone fun p => ?_
    cases p with
    | waiter => rw [h.waiterPlace, hw]; rfl
    | block => rw [h.blockPlace, hb]; rfl
  have hkept := h.kept
  have hreply := h.reply
  rw [ResultKept, hw, stored, hb] at hkept
  rw [BlockHasReply, hb] at hreply
  obtain ⟨reply, hdelivered⟩ := Option.ne_none_iff_exists'.mp hreply
  have hresults : s.released = s.result.toList := by
    rw [h.counts.released, hreleased]
    rfl
  refine ⟨?_, ?_, reply, hdelivered, ?_⟩
  · rw [h.counts.frees, hreleased]
    rfl
  · rw [h.counts.semReleases, hreleased]
    rfl
  · rw [hdelivered] at hkept
    rw [hresults]
    rcases hkept with ⟨-, hresult, hout⟩ | ⟨-, hresult, hout⟩
    · rw [hresult, hout]
      exact List.append_nil _
    · rw [hresult, hout]
      rfl

/-- **A reply has exactly one owner.** The invariant holds in every state reached, and
each step uses up one of those that were left at the start. -/
theorem xpcReply_ownership_exact {as : List (ReplyAction α)} (h : run step initial as = some s) :
    s.fault = false ∧ s.frees ≤ 1 ∧ s.semReleases ≤ 1 ∧
      (s.refs = 0 → s.frees = 1 ∨ s.waiter.pc.Releasing ∨ s.block.pc.Releasing) ∧
      (∀ out pc, s.waiter = .unref out pc → out ≠ none →
        s.waited = some true ∧ s.released = []) ∧
      as.length ≤ 14 ∧
      ((∀ action, step s action = none) →
        ∃ out reply, s.waiter = .unref out .finished ∧ s.block = .unref .finished ∧
          s.delivered = some reply ∧ s.frees = 1 ∧ s.semReleases = 1 ∧
          out.toList ++ s.released = reply.toList) := by
  obtain ⟨a, hinv⟩ := exists_replyInv_of_run h
  have hlength := length_add_le_of_run left (fun _ _ _ => left_of_step) h
  refine ⟨hinv.fault, ?_, ?_, hinv.refs_eq_zero, fun _ _ => hinv.waited_of_out,
    Nat.le_trans (Nat.le_add_right _ _) hlength, ?_⟩
  · rw [hinv.counts.frees]
    split <;> omega
  · rw [hinv.counts.semReleases]
    split <;> omega
  · intro hstuck
    obtain ⟨⟨out, hw⟩, hb⟩ := finished_of_stuck hstuck
    obtain ⟨hfrees, hsem, reply, hdelivered, howner⟩ := hinv.of_finished hw hb
    exact ⟨out, reply, hw, hb, hdelivered, hfrees, hsem, howner⟩

/-- The reply comes after the timeout, while the waiting side drops its reference. -/
def lateReply : List (ReplyAction ℕ) :=
  [.timedOut, .reply (some 7), .block, .waiter, .block, .block, .block, .block, .block]

/-- It is released by the block. -/
theorem xpcReply_ownership_exact_late :
    ∃ s, run step initial lateReply = some s ∧ s.fault = false ∧ s.frees = 1 ∧
      s.released = [7] := by
  have hrun : run step initial lateReply = some _ := rfl
  have hexact := xpcReply_ownership_exact hrun
  exact ⟨_, hrun, hexact.1, rfl, rfl⟩

end ReplyState

end ContainerRs
