import ContainerRs.Lib.Handles
import ContainerRs.Lib.Runs
import Mathlib.Algebra.GroupWithZero.Nat
import Mathlib.Data.Finset.Card
import Mathlib.Data.List.Basic

/-!
# The File Descriptors of the Logs

On macOS a container keeps the two file descriptors of its logs as plain numbers
(`ContainerLogSource::Fd`). `ContainerAsync::new` spawns the consumer tasks on duplicates of
them, `stdout` and `stderr` duplicate one of them for each reader, a restart
(`refresh_log_streams`) fetches two new ones, closes the old ones and spawns the consumer tasks
again, and `Drop` closes the last ones. The numbers are guarded by the lock of `log_source`
only while they are stored, read or swapped: `refresh_log_streams` duplicates the new ones for
the consumer tasks after it has let go of the lock.

The module models one container, any number of overlapping calls of `start`, any number of
readers, and the rest of the process, which opens and closes files of its own, as interleaved
atomic steps over one table of file descriptors whose numbers are given out again. A call may be
cancelled while it waits for the reply; the blocking task that fetches the log descriptors
goes on without it. The part of `start` before `refresh_log_streams` touches neither the table
nor the stop flags and is left out.

## Main results

* `LogFdInv.of_step`: every number is held by whoever has to close it, and by nobody else.
* `logFds_owned`: no close hits a file of somebody else, readers read the logs of the container,
  and only a cancelled call leaves descriptors open.
* `Serial.of_step`, `consumers_read_logs`: if the parts of two restarts behind the reply do not
  overlap, the consumer tasks read the logs too and every stop flag but the current one is set.
* `overlapping_refreshes_read_foreign`: if they do, a consumer task may read a foreign file.
-/

namespace ContainerRs

open Handles (Table)

/-! ### The parties -/

/-- The two streams of a log. -/
inductive LogFd
  | stdout
  | stderr
  deriving DecidableEq, Repr

/-- What is open under a number: a log stream of the container, from the `session`-th reply to
`containerLogs`, or a file of the rest of the process. -/
inductive File
  | log (session : ℕ) (stream : LogFd)
  | foreign
  deriving DecidableEq, Repr

/-- Whoever has to close a number. Nobody closes those that are `leaked`. -/
inductive FdOwner
  | source
  | call (i : ℕ)
  | reader (r : ℕ)
  | leaked
  | others
  deriving DecidableEq, Repr

/-- The numbers in `ContainerLogSource::Fd`. -/
structure LogFds where
  stdout : ℕ
  stderr : ℕ
  deriving DecidableEq, Repr

def LogFds.get (fds : LogFds) : LogFd → ℕ
  | .stdout => fds.stdout
  | .stderr => fds.stderr

def LogFds.both (fds : LogFds) : List ℕ := [fds.stdout, fds.stderr]

/-- A reader or a consumer task: its own duplicate, its stop flag, and the stream it is for. -/
structure FdReader where
  fd : ℕ
  stop : ℕ
  stream : LogFd
  consumer : Bool
  deriving DecidableEq, Repr

/-- Where a call of `start` stands inside `refresh_log_streams`. `waiting` is false when the call
has been cancelled and only its blocking task is left. -/
inductive FdPc
  | awaitLogs (waiting : Bool)
  | checkFds (waiting : Bool) (fds : List (Option ℕ))
  | raiseStop (fds : LogFds)
  | renewStop (fds : LogFds)
  | swapSource (fds : LogFds) (stop : ℕ)
  | spawnStdout (fds : LogFds) (stop : ℕ)
  | spawnStderr (fds : LogFds) (stop : ℕ)
  | stopDelivery
  | returned (ok : Bool)
  deriving DecidableEq, Repr

/-- The numbers a call has to dispose of. -/
def FdPc.fds : FdPc → List ℕ
  | .checkFds _ fds => fds.filterMap id
  | .raiseStop fds | .renewStop fds | .swapSource fds _ => fds.both
  | _ => []

/-- The call borrows the container. -/
def FdPc.Borrows : FdPc → Bool
  | .awaitLogs waiting | .checkFds waiting _ => waiting
  | .returned _ => false
  | _ => true

/-- How many numbers the blocking task of a cancelled call may still leave behind. -/
def FdPc.debt : FdPc → ℕ
  | .awaitLogs false | .checkFds false _ => 2
  | _ => 0

/-- Behind the reply, up to its return: there is no `await` in this part. -/
def FdPc.Section : FdPc → Bool
  | .renewStop _ | .swapSource _ _ | .spawnStdout _ _ | .spawnStderr _ _ => true
  | _ => false

/-- Where the container stands: its constructor spawns the consumer tasks. -/
inductive Life
  | spawnStdout
  | spawnStderr
  | alive
  | dropped
  deriving DecidableEq, Repr

/-- The table, the number of replies so far, and the container: the numbers in `log_source`, the
stop flags and the current one, whether there are consumers. A finished reader is `none`. -/
structure LogFdSystem where
  table : Table File FdOwner
  replies : ℕ
  source : Option LogFds
  flags : List Bool
  logStop : ℕ
  consumers : Bool
  calls : List FdPc
  readers : List (Option FdReader)
  leaked : Finset ℕ
  others : Finset ℕ
  life : Life

/-- The steps of a call. The kernel chooses the numbers: `none` for a `dup` that fails. -/
inductive FdStep
  | logsReply (reply : Option (List (Option ℕ)))
  | checkFds
  | cancel
  | raiseStop
  | renewStop
  | swapSource
  | spawnStdout (dup : Option ℕ)
  | spawnStderr (dup : Option ℕ)
  | stopDelivery
  deriving DecidableEq, Repr

/-- The cancellation of a call. -/
def FdStep.isCancel : FdStep → Bool
  | .cancel => true
  | _ => false

/-- A step of the constructor, of a call, of a reader, of `stop` or `rm`, of `Drop`, or of the
rest of the process. -/
inductive FdAction
  | new (dup : Option ℕ)
  | start
  | call (i : ℕ) (a : FdStep)
  | read (stream : LogFd) (dup : Option ℕ)
  | finish (r : ℕ)
  | stopDelivery
  | drop
  | openOther (n : ℕ)
  | closeOther (n : ℕ)
  deriving DecidableEq, Repr

/-- A call gets behind the reply. -/
def FdAction.raises : FdAction → Bool
  | .call _ .raiseStop => true
  | _ => false

/-- The cancellation of some call. -/
def FdAction.isCancel : FdAction → Bool
  | .call _ a => a.isCancel
  | _ => false

namespace LogFdSystem

/-! ### The steps -/

/-- A new container, with the numbers of its logs if it has got them. -/
def init (source : Option LogFds) (consumers : Bool) : LogFdSystem where
  table :=
    match source with
    | none => .empty
    | some fds =>
        (Table.empty.openAt fds.stdout (.log 0 .stdout) .source).openAt fds.stderr
          (.log 0 .stderr) .source
  replies := 1
  source := source
  flags := [false]
  logStop := 0
  consumers := consumers
  calls := []
  readers := []
  leaked := ∅
  others := ∅
  life := if consumers && source.isSome then .spawnStdout else .alive

/-- Move call `i` on. -/
def goto (s : LogFdSystem) (i : ℕ) (pc : FdPc) : LogFdSystem :=
  { s with calls := s.calls.set i pc }

/-- `xpc_array_dup_fd` for one element of the reply. -/
def dupLog (t : Table File FdOwner) (session : ℕ) (o : FdOwner) (stream : LogFd) :
    Option ℕ → Option (Table File FdOwner)
  | none => some t
  | some n => if t.entry n = none then some (t.openAt n (.log session stream) o) else none

/-- `log_fds`: the elements of the reply in turn, at most as many as there are streams. -/
def dupLogs (t : Table File FdOwner) (session : ℕ) (o : FdOwner) :
    List LogFd → List (Option ℕ) → Option (Table File FdOwner)
  | _, [] => some t
  | [], _ :: _ => none
  | stream :: streams, fd :: fds =>
      (dupLog t session o stream fd).bind fun t => dupLogs t session o streams fds

/-- The check in `XpcClient::logs`: two numbers, both valid. -/
def validFds : List (Option ℕ) → Option LogFds
  | some out :: some err :: _ => some ⟨out, err⟩
  | _ => none

/-- `FdReader::dup_from` and what is spawned on it: without a duplicate there is no reader. -/
def dupReader (s : LogFdSystem) (fd : ℕ) (stream : LogFd) (stop : ℕ) (consumer : Bool) :
    Option ℕ → Option LogFdSystem
  | none => some s
  | some n =>
      match s.table.entry fd, s.table.entry n with
      | some e, none =>
          some { s with
            table := s.table.openAt n e.file (.reader s.readers.length)
            readers := s.readers ++ [some { fd := n, stop, stream, consumer }] }
      | _, _ => none

/-- `stop_log_delivery`. -/
def raise (s : LogFdSystem) : LogFdSystem := { s with flags := s.flags.set s.logStop true }

/-- Close the numbers in `log_source`. -/
def closeSource (s : LogFdSystem) : LogFdSystem :=
  { s with table := s.table.closeAll .source ((s.source.map LogFds.both).getD []), source := none }

/-- Nobody closes the numbers of a call that is gone. -/
def leak (s : LogFdSystem) (fds : LogFds) : LogFdSystem :=
  { s with
    table := s.table.pass fds.both .leaked
    leaked := insert fds.stdout (insert fds.stderr s.leaked) }

/-- Where a call goes whose request has failed: `start` stops the container again. -/
def failed (waiting : Bool) : FdPc := if waiting then .stopDelivery else .returned false

/-- The next step of the constructor. -/
def stepNew (s : LogFdSystem) (dup : Option ℕ) : Option LogFdSystem :=
  match s.life, s.source with
  | .spawnStdout, some fds =>
      (s.dupReader fds.stdout .stdout s.logStop true dup).map fun s =>
        { s with life := .spawnStderr }
  | .spawnStderr, some fds =>
      (s.dupReader fds.stderr .stderr s.logStop true dup).map fun s => { s with life := .alive }
  | _, _ => none

/-- One step of call `i`, which stands at `pc`. When nobody waits for the task any more, its result
is dropped, and the numbers in it close nothing. -/
def stepCall (s : LogFdSystem) (i : ℕ) : FdPc → FdStep → Option LogFdSystem
  | .awaitLogs waiting, .logsReply none => some (s.goto i (failed waiting))
  | .awaitLogs waiting, .logsReply (some fds) =>
      (dupLogs s.table s.replies (.call i) [.stdout, .stderr] fds).map fun t =>
        goto { s with table := t, replies := s.replies + 1 } i (.checkFds waiting fds)
  | .checkFds waiting fds, .checkFds =>
      match validFds fds with
      | some fds =>
          if waiting then some (s.goto i (.raiseStop fds))
          else some ((s.leak fds).goto i (.returned false))
      | none =>
          let s : LogFdSystem :=
            { s with table := s.table.closeAll (.call i) (fds.filterMap id) }
          some (s.goto i (failed waiting))
  | .awaitLogs true, .cancel => some (s.goto i (.awaitLogs false))
  | .checkFds true fds, .cancel => some (s.goto i (.checkFds false fds))
  | .raiseStop fds, .cancel => some ((s.leak fds).goto i (.returned false))
  | .stopDelivery, .cancel => some (s.goto i (.returned false))
  | .raiseStop fds, .raiseStop => some (s.raise.goto i (.renewStop fds))
  | .renewStop fds, .renewStop =>
      let stop := s.flags.length
      some (goto { s with flags := s.flags ++ [false], logStop := stop } i (.swapSource fds stop))
  | .swapSource fds stop, .swapSource =>
      let s := s.closeSource
      let s : LogFdSystem :=
        { s with table := s.table.pass fds.both .source, source := some fds }
      some (s.goto i (if s.consumers then .spawnStdout fds stop else .returned true))
  | .spawnStdout fds stop, .spawnStdout dup =>
      (s.dupReader fds.stdout .stdout stop true dup).map fun s => s.goto i (.spawnStderr fds stop)
  | .spawnStderr fds stop, .spawnStderr dup =>
      (s.dupReader fds.stderr .stderr stop true dup).map fun s => s.goto i (.returned true)
  | .stopDelivery, .stopDelivery => some (s.raise.goto i (.returned false))
  | _, _ => none

/-- One step of the system. The container can only be dropped when nobody borrows it. -/
def step (s : LogFdSystem) : FdAction → Option LogFdSystem
  | .new dup => s.stepNew dup
  | .start =>
      if s.life = .alive then some { s with calls := s.calls ++ [.awaitLogs true] } else none
  | .call i a => s.calls[i]?.bind fun pc => s.stepCall i pc a
  | .read stream dup =>
      if s.life = .alive then
        match s.source with
        | none => some s
        | some fds => s.dupReader (fds.get stream) stream s.logStop false dup
      else none
  | .finish r =>
      match s.readers[r]? with
      | some (some x) =>
          some { s with table := s.table.close (.reader r) x.fd, readers := s.readers.set r none }
      | _ => none
  | .stopDelivery => if s.life = .alive then some s.raise else none
  | .drop =>
      if s.life = .alive ∧ s.calls.all (fun pc => !pc.Borrows) then
        some { s.raise.closeSource with life := .dropped }
      else none
  | .openOther n =>
      if s.table.entry n = none then
        some { s with table := s.table.openAt n .foreign .others, others := insert n s.others }
      else none
  | .closeOther n =>
      if n ∈ s.others then
        some { s with table := s.table.close .others n, others := s.others.erase n }
      else none

/-- Who holds which number. -/
def Holds (s : LogFdSystem) : FdOwner → ℕ → Prop
  | .source, n => ∃ fds, s.source = some fds ∧ n ∈ fds.both
  | .call i, n => ∃ pc, s.calls[i]? = some pc ∧ n ∈ pc.fds
  | .reader r, n => ∃ x, s.readers[r]? = some (some x) ∧ x.fd = n
  | .leaked, n => n ∈ s.leaked
  | .others, n => n ∈ s.others

/-! ### What is open under a number -/

/-- Under the two numbers the owner has the two streams of one reply. -/
def Paired (t : Table File FdOwner) (o : FdOwner) (fds : LogFds) : Prop :=
  ∃ k, ∀ stream, t.entry (fds.get stream) = some ⟨.log k stream, o⟩

/-- Under the valid numbers of a reply the owner has its streams. -/
def Replied (t : Table File FdOwner) (o : FdOwner) (fds : List (Option ℕ)) : Prop :=
  fds.length ≤ 2 ∧ (fds.filterMap id).Nodup ∧ ∃ k, ∀ (j n : ℕ) (stream : LogFd),
    fds[j]? = some (some n) → [LogFd.stdout, LogFd.stderr][j]? = some stream →
      t.entry n = some ⟨.log k stream, o⟩

/-- What a call has in its hands. -/
def PcOk (t : Table File FdOwner) (o : FdOwner) : FdPc → Prop
  | .checkFds _ fds => Replied t o fds
  | .raiseStop fds | .renewStop fds | .swapSource fds _ => Paired t o fds
  | _ => True

section

variable {t t' : Table File FdOwner} {o : FdOwner} {P : FdOwner → Prop}

/-- The two numbers are those of the two streams. -/
theorem mem_both {fds : LogFds} {n : ℕ} : n ∈ fds.both ↔ ∃ stream, fds.get stream = n := by
  constructor
  · intro h
    rcases List.mem_cons.mp h with rfl | h
    · exact ⟨.stdout, rfl⟩
    · exact ⟨.stderr, (List.mem_singleton.mp h).symm⟩
  · rintro ⟨stream, rfl⟩
    cases stream <;> simp [LogFds.both, LogFds.get]

/-- The streams of a reply stay with their owner when the table changes elsewhere only. -/
theorem Paired.keeps {fds : LogFds} (h : Paired t o fds) (hkeeps : Table.Keeps P t t') (ho : P o) :
    Paired t' o fds := by
  obtain ⟨k, hk⟩ := h
  exact ⟨k, fun stream => hkeeps _ _ _ ho (hk stream)⟩

/-- So do the valid numbers of a reply. -/
theorem Replied.keeps {fds : List (Option ℕ)} (h : Replied t o fds)
    (hkeeps : Table.Keeps P t t') (ho : P o) : Replied t' o fds := by
  obtain ⟨hlength, hnodup, k, hk⟩ := h
  exact ⟨hlength, hnodup, k, fun j n stream hn hj => hkeeps _ _ _ ho (hk j n stream hn hj)⟩

/-- And so does what a call has in its hands, wherever it stands. -/
theorem PcOk.keeps {pc : FdPc} (h : PcOk t o pc) (hkeeps : Table.Keeps P t t') (ho : P o) :
    PcOk t' o pc := by
  cases pc with
  | checkFds waiting fds => exact Replied.keeps h hkeeps ho
  | raiseStop fds | renewStop fds | swapSource fds stop => exact Paired.keeps h hkeeps ho
  | _ => trivial

/-- Both numbers are open, and held by the owner. -/
theorem Paired.open {fds : LogFds} (h : Paired t o fds) :
    ∀ n ∈ fds.both, ∃ f, t.entry n = some ⟨f, o⟩ := by
  obtain ⟨k, hk⟩ := h
  intro n hn
  obtain ⟨stream, rfl⟩ := mem_both.mp hn
  exact ⟨_, hk stream⟩

/-- The two streams of a reply are not open under one number. -/
theorem Paired.nodup {fds : LogFds} (h : Paired t o fds) : fds.both.Nodup := by
  obtain ⟨k, hk⟩ := h
  have hne : fds.stdout ≠ fds.stderr := by
    intro heq
    have hboth := (hk .stdout).symm.trans ((congrArg t.entry heq).trans (hk .stderr))
    simp at hboth
  simp [LogFds.both, hne]

/-- Numbers that are handed on keep their streams. -/
theorem Paired.pass {fds : LogFds} (h : Paired t o fds) (o' : FdOwner) :
    Paired (t.pass fds.both o') o' fds := by
  obtain ⟨k, hk⟩ := h
  refine ⟨k, fun stream => ?_⟩
  rw [Table.entry_pass, if_pos (mem_both.mpr ⟨stream, rfl⟩), hk, Option.map_some]

/-- The numbers that pass the check of `logs` are those of the two streams. -/
theorem Replied.paired {fds : List (Option ℕ)} {valid : LogFds} (h : Replied t o fds)
    (hvalid : validFds fds = some valid) :
    Paired t o valid ∧ fds.filterMap id = valid.both := by
  obtain ⟨hlength, -, k, hk⟩ := h
  obtain ⟨out, err, rfl⟩ : ∃ out err, fds = [some out, some err] := by
    rcases fds with _ | ⟨_ | out, _ | ⟨_ | err, _ | ⟨fd, fds⟩⟩⟩
    case cons.some.cons.some.nil => exact ⟨out, err, rfl⟩
    all_goals simp [validFds] at hvalid hlength
  obtain rfl : ⟨out, err⟩ = valid := Option.some.inj hvalid
  refine ⟨⟨k, fun stream => ?_⟩, rfl⟩
  cases stream with
  | stdout => exact hk 0 out .stdout rfl rfl
  | stderr => exact hk 1 err .stderr rfl rfl

/-- What `log_fds` has done to the table: the valid numbers were free, they are now those of the
streams, and nobody else's have changed. -/
structure Duped (t t' : Table File FdOwner) (session : ℕ) (o : FdOwner) (streams : List LogFd)
    (fds : List (Option ℕ)) (holds : FdOwner → ℕ → Prop) : Prop where
  exact : t'.Exact fun o' m => holds o' m ∨ o' = o ∧ m ∈ fds.filterMap id
  keeps : Table.Keeps (fun _ => True) t t'
  length : fds.length ≤ streams.length
  nodup : (fds.filterMap id).Nodup
  free : ∀ n ∈ fds.filterMap id, t.entry n = none
  files : ∀ (j n : ℕ) (stream : LogFd), fds[j]? = some (some n) → streams[j]? = some stream →
    t'.entry n = some ⟨.log session stream, o⟩

variable {session : ℕ} {holds : FdOwner → ℕ → Prop} {stream : LogFd} {streams : List LogFd}
  {fds : List (Option ℕ)}

/-- An element whose `dup` has failed has no number. -/
theorem Duped.cons_none (h : Duped t t' session o streams fds holds) :
    Duped t t' session o (stream :: streams) (none :: fds) holds where
  exact := h.exact
  keeps := h.keeps
  length := Nat.succ_le_succ h.length
  nodup := h.nodup
  free := h.free
  files := by
    intro j n stream' hn hj
    cases j with
    | zero => simp at hn
    | succ j => exact h.files j n stream' hn hj

/-- The number of the first element is in use when the others are duplicated. None of the
later numbers is this one, since it was in use by then. -/
theorem Duped.cons_some {n : ℕ} (hfree : t.entry n = none)
    (h : Duped (t.openAt n (.log session stream) o) t' session o streams fds
      fun o' m => holds o' m ∨ o' = o ∧ m = n) :
    Duped t t' session o (stream :: streams) (some n :: fds) holds := by
  have hvalid : (some n :: fds).filterMap id = n :: fds.filterMap id := rfl
  have hothers : ∀ m ∈ fds.filterMap id, m ≠ n ∧ t.entry m = none := by
    intro m hm
    have hnone := h.free m hm
    rw [Table.entry_openAt] at hnone
    split at hnone
    · exact absurd hnone (by simp)
    · next hne => exact ⟨hne, hnone⟩
  refine ⟨h.exact.congr fun o' m => ?_, (Table.keeps_openAt hfree _ _).trans h.keeps,
    Nat.succ_le_succ h.length, ?_, ?_, ?_⟩
  · rw [hvalid, List.mem_cons, and_or_left, or_assoc]
  · rw [hvalid]
    exact List.nodup_cons.mpr ⟨fun hmem => (hothers n hmem).1 rfl, h.nodup⟩
  · intro m hm
    rcases List.mem_cons.mp (hvalid ▸ hm) with rfl | hm
    · exact hfree
    · exact (hothers m hm).2
  · intro j m stream' hm hj
    cases j with
    | zero =>
        obtain rfl : n = m := by simpa using hm
        obtain rfl : stream = stream' := by simpa using hj
        exact h.keeps n _ o trivial (by rw [Table.entry_openAt, if_pos rfl])
    | succ j => exact h.files j m stream' hm hj

/-- What `log_fds` duplicates is held by the call, and disturbs nobody. By induction on
the numbers: each is free when it is opened, and a `dup` that fails opens nothing. -/
theorem duped_of_dupLogs (h : dupLogs t session o streams fds = some t') (hexact : t.Exact holds) :
    Duped t t' session o streams fds holds := by
  induction fds generalizing t holds streams with
  | nil =>
      obtain rfl : t = t' := by cases streams <;> exact Option.some.inj h
      exact ⟨hexact.congr (by simp), fun _ _ _ _ hn => hn, Nat.zero_le _, List.nodup_nil, by simp,
        by simp⟩
  | cons fd fds ih =>
      match streams, h with
      | stream :: streams, h =>
        obtain ⟨t₁, h₁, hrest⟩ := Option.bind_eq_some_iff.mp h
        cases fd with
        | none =>
            obtain rfl : t = t₁ := Option.some.inj h₁
            exact (ih hrest hexact).cons_none
        | some n =>
            rw [dupLog] at h₁
            split at h₁
            · next hfree =>
                obtain rfl := Option.some.inj h₁
                exact (ih hrest (hexact.openAt hfree _ fun _ _ => Iff.rfl)).cons_some hfree
            · exact absurd h₁ (by simp)

end

/-! ### Ownership -/

/-- The numbers in use are those held, each by one holder; the container and its calls have the
log streams under theirs, and so have the readers of `R`. -/
structure LogFdInv (R : FdReader → Prop) (s : LogFdSystem) : Prop where
  exact : s.table.Exact s.Holds
  source : ∀ fds, s.source = some fds → Paired s.table .source fds
  call : ∀ i pc, s.calls[i]? = some pc → PcOk s.table (.call i) pc
  reader : ∀ r x, s.readers[r]? = some (some x) → R x →
    ∃ k, s.table.entry x.fd = some ⟨.log k x.stream, .reader r⟩

variable {R : FdReader → Prop} {s s' : LogFdSystem} {i : ℕ} {pc pc₀ : FdPc}

/-- **The invariant holds of a new container**: the numbers it has got are in use, and
nothing else is. -/
theorem logFdInv_init (source : Option LogFds) (consumers : Bool)
    (hne : ∀ fds, source = some fds → fds.stdout ≠ fds.stderr) :
    (init source consumers).LogFdInv R := by
  cases source with
  | none =>
      refine ⟨Table.exact_empty fun o n => ?_, by simp [init], by simp [init], by simp [init]⟩
      cases o <;> simp [Holds, init]
  | some fds =>
      have hopen := hne fds rfl
      have hempty : (Table.empty : Table File FdOwner).Exact fun _ _ => False :=
        Table.exact_empty fun _ _ h => h
      have hout : ((Table.empty : Table File FdOwner).openAt fds.stdout (.log 0 .stdout)
          .source).Exact fun o n => False ∨ o = FdOwner.source ∧ n = fds.stdout :=
        hempty.openAt rfl (.log 0 .stdout) fun _ _ => Iff.rfl
      have hfree : ((Table.empty : Table File FdOwner).openAt fds.stdout (.log 0 .stdout)
          .source).entry fds.stderr = none := by
        rw [Table.entry_openAt, if_neg (Ne.symm hopen)]
        rfl
      refine ⟨hout.openAt hfree _ fun o n => ?_, ?_, by simp [init], by simp [init]⟩
      · cases o <;> simp [Holds, init, LogFds.both]
      · intro fds' hfds'
        obtain rfl : fds = fds' := Option.some.inj hfds'
        refine ⟨0, fun stream => ?_⟩
        cases stream with
        | stdout =>
            exact Table.keeps_openAt (P := fun _ => True) hfree _ _ _ _ _ trivial
              (by rw [LogFds.get, Table.entry_openAt, if_pos rfl])
        | stderr => exact (Table.entry_openAt _ _ _ _ _).trans (if_pos rfl)

/-- Where the calls stand after one of them has been moved on. -/
theorem getElem_goto (hpc : s.calls[i]? = some pc₀) (pc : FdPc) (j : ℕ) :
    (s.goto i pc).calls[j]? = if j = i then some pc else s.calls[j]? := by
  have hlt : i < s.calls.length := (List.getElem?_eq_some_iff.mp hpc).1
  rw [goto, List.getElem?_set]
  by_cases hj : i = j
  · rw [if_pos hj, if_pos hlt, if_pos hj.symm]
  · rw [if_neg hj, if_neg (Ne.symm hj)]

/-- Moving a call on changes its own holdings. -/
theorem holds_goto (hpc : s.calls[i]? = some pc₀) (pc : FdPc) (o : FdOwner) (n : ℕ) :
    (s.goto i pc).Holds o n ↔ o ≠ .call i ∧ s.Holds o n ∨ o = .call i ∧ n ∈ pc.fds := by
  cases o with
  | call j =>
      by_cases hj : j = i
      · simp [Holds, getElem_goto hpc, hj]
      · simp [Holds, getElem_goto hpc, hj]
  | _ => simp [Holds, goto]

/-- The invariant after a change that keeps what the owners of `P` have open. For the
others it is said what they have open now. -/
theorem LogFdInv.of_keeps (h : s.LogFdInv R) {P : FdOwner → Prop}
    (hkeeps : Table.Keeps P s.table s'.table) (hexact : s'.table.Exact s'.Holds)
    (hsource : ∀ fds, s'.source = some fds →
      s.source = some fds ∧ P .source ∨ Paired s'.table .source fds)
    (hcall : ∀ j pc, s'.calls[j]? = some pc →
      s.calls[j]? = some pc ∧ P (.call j) ∨ PcOk s'.table (.call j) pc)
    (hreader : ∀ r x, s'.readers[r]? = some (some x) → R x →
      s.readers[r]? = some (some x) ∧ P (.reader r) ∨
        ∃ k, s'.table.entry x.fd = some ⟨.log k x.stream, .reader r⟩) : s'.LogFdInv R where
  exact := hexact
  source := by
    intro fds hfds
    rcases hsource fds hfds with ⟨hold, hp⟩ | hnew
    · exact (h.source fds hold).keeps hkeeps hp
    · exact hnew
  call := by
    intro j pc hpc
    rcases hcall j pc hpc with ⟨hold, hp⟩ | hnew
    · exact (h.call j pc hold).keeps hkeeps hp
    · exact hnew
  reader := by
    intro r x hx hconsumer
    rcases hreader r x hx hconsumer with ⟨hold, hp⟩ | hnew
    · obtain ⟨k, hk⟩ := h.reader r x hold hconsumer
      exact ⟨k, hkeeps _ _ _ hp hk⟩
    · exact hnew

/-- A call that changes nothing but its own state goes on with the numbers it has. The
numbers of the other calls, of `log_source` and of the readers are the same. -/
theorem LogFdInv.goto (h : s.LogFdInv R) (hpc : s.calls[i]? = some pc₀) (hfds : pc.fds = pc₀.fds)
    (hok : PcOk s.table (.call i) pc) : (s.goto i pc).LogFdInv R := by
  refine h.of_keeps (P := fun _ => True) (fun _ _ _ _ hn => hn) (h.exact.congr fun o n => ?_)
    (fun fds hfds => .inl ⟨hfds, trivial⟩) ?_ fun r x hx _ => .inl ⟨hx, trivial⟩
  · rw [holds_goto hpc]
    by_cases ho : o = .call i
    · subst ho
      simp [Holds, hpc, hfds]
    · simp [ho]
  · intro j pc' hpc'
    rw [getElem_goto hpc] at hpc'
    split at hpc'
    · next hj =>
        obtain rfl := Option.some.inj hpc'
        exact .inr (hj ▸ hok)
    · exact .inl ⟨hpc', trivial⟩

/-- Raising the stop flag changes no number. -/
theorem LogFdInv.raise (h : s.LogFdInv R) : s.raise.LogFdInv R :=
  ⟨h.exact.congr fun o n => by cases o <;> rfl, h.source, h.call, h.reader⟩

/-- The numbers of a call, when its numbers change together with the table. What the other
owners have open is kept, and the call has in its hands what it is said to. -/
theorem LogFdInv.of_call (h : s.LogFdInv R) (hpc : s.calls[i]? = some pc₀) {t : Table File FdOwner}
    (hkeeps : Table.Keeps (· ≠ .call i) s.table t) (replies : ℕ) (leaked : Finset ℕ)
    (hexact : t.Exact
      (LogFdSystem.goto { s with table := t, replies := replies, leaked := leaked } i pc).Holds)
    (hok : PcOk t (.call i) pc) :
    LogFdInv R
      (LogFdSystem.goto { s with table := t, replies := replies, leaked := leaked } i pc) := by
  refine h.of_keeps hkeeps hexact (fun fds hfds => .inl ⟨hfds, by simp⟩) ?_
    fun r x hx _ => .inl ⟨hx, by simp⟩
  intro j pc' hpc'
  rw [getElem_goto (s := { s with table := t, replies := replies, leaked := leaked }) hpc] at hpc'
  split at hpc'
  · next hj =>
      obtain rfl := Option.some.inj hpc'
      exact .inr (hj ▸ hok)
  · next hj => exact .inl ⟨hpc', by simpa using hj⟩

/-- The numbers of a call are open in its name. -/
theorem LogFdInv.open_call (h : s.LogFdInv R) (hpc : s.calls[i]? = some pc) :
    ∀ n ∈ pc.fds, ∃ f, s.table.entry n = some ⟨f, .call i⟩ :=
  fun n hn => h.exact.entry (.call i) n ⟨pc, hpc, hn⟩

/-- A reply adds the duplicates to the holdings of the call. -/
theorem LogFdInv.logsReply (h : s.LogFdInv R) {waiting : Bool} {fds : List (Option ℕ)}
    {t : Table File FdOwner} (hpc : s.calls[i]? = some (.awaitLogs waiting))
    (hdup : dupLogs s.table s.replies (.call i) [.stdout, .stderr] fds = some t) :
    (LogFdSystem.goto { s with table := t, replies := s.replies + 1 } i
      (.checkFds waiting fds)).LogFdInv R := by
  have hduped := duped_of_dupLogs hdup h.exact
  refine h.of_call hpc (fun n f o _ hn => hduped.keeps n f o trivial hn) _ s.leaked
    (hduped.exact.congr fun o n => ?_)
    ⟨hduped.length, hduped.nodup, s.replies, fun j n stream hn hj => hduped.files j n stream hn hj⟩
  rw [holds_goto (s := { s with table := t, replies := s.replies + 1 }) hpc]
  by_cases ho : o = .call i
  · subst ho
    simp [Holds, hpc, FdPc.fds]
  · cases o <;> simp_all [Holds]

/-- Failed calls hold nothing. -/
theorem fds_failed (waiting : Bool) : (failed waiting).fds = [] := by cases waiting <;> rfl

/-- A call whose request has failed has nothing in its hands. -/
theorem pcOk_failed (t : Table File FdOwner) (o : FdOwner) (waiting : Bool) :
    PcOk t o (failed waiting) := by cases waiting <;> trivial

/-- What is closed after a failed check is all that the call held. They were its valid
numbers, and it holds none behind it. -/
theorem LogFdInv.closeCall (h : s.LogFdInv R) {waiting : Bool} {fds : List (Option ℕ)}
    (hpc : s.calls[i]? = some (.checkFds waiting fds)) :
    (LogFdSystem.goto { s with table := s.table.closeAll (.call i) (fds.filterMap id) } i
      (failed waiting)).LogFdInv R := by
  obtain ⟨-, hnodup, -⟩ : Replied s.table (.call i) fds := h.call i _ hpc
  have hheld : ∀ n ∈ fds.filterMap id, s.Holds (.call i) n := fun n hn => ⟨_, hpc, hn⟩
  refine h.of_call hpc (Table.keeps_closeAll (by simp) (h.open_call hpc)) s.replies s.leaked ?_
    (pcOk_failed _ _ _)
  refine h.exact.closeAll hnodup hheld fun o n => ?_
  let s' : LogFdSystem := { s with table := s.table.closeAll (.call i) (fds.filterMap id) }
  have hsame : s'.Holds o n ↔ s.Holds o n := by cases o <;> rfl
  refine (holds_goto (s := s') hpc _ o n).trans ?_
  rw [fds_failed, hsame]
  constructor
  · rintro (⟨ho, hn⟩ | ⟨-, hn⟩)
    · exact ⟨hn, fun hmem => ho (h.exact.unique hn (hheld n hmem))⟩
    · exact absurd hn List.not_mem_nil
  · rintro ⟨hn, hnot⟩
    refine .inl ⟨?_, hn⟩
    rintro rfl
    obtain ⟨pc, hpc', hmem⟩ := hn
    obtain rfl := Option.some.inj (hpc.symm.trans hpc')
    exact hnot hmem

/-- A call that hands all its numbers on to another owner keeps none. What the new owner
had before stays with it. -/
theorem LogFdInv.exact_pass (h : s.LogFdInv R) (s' : LogFdSystem) {fds : LogFds}
    {o' : FdOwner} (hpc : s.calls[i]? = some pc₀) (hfds : pc₀.fds = fds.both) (ho' : o' ≠ .call i)
    (hcalls : s'.calls = s.calls) (hpcfds : pc.fds = [])
    (hholds : ∀ o n, s'.Holds o n ↔ s.Holds o n ∨ o = o' ∧ n ∈ fds.both) :
    (s.table.pass fds.both o').Exact (s'.goto i pc).Holds := by
  have hheld : ∀ n ∈ fds.both, s.Holds (.call i) n := fun n hn => ⟨pc₀, hpc, hfds ▸ hn⟩
  refine h.exact.pass hheld fun o n => ?_
  refine (holds_goto (hcalls ▸ hpc) _ o n).trans ?_
  rw [hholds, hpcfds]
  constructor
  · rintro (⟨ho, hn | ⟨rfl, hn⟩⟩ | ⟨-, hn⟩)
    · exact .inl ⟨fun hmem => ho (h.exact.unique hn (hheld n hmem)), hn⟩
    · exact .inr ⟨hn, rfl⟩
    · exact absurd hn List.not_mem_nil
  · rintro (⟨hnot, hn⟩ | ⟨hn, rfl⟩)
    · refine .inl ⟨?_, .inl hn⟩
      rintro rfl
      obtain ⟨pc', hpc', hmem⟩ := hn
      obtain rfl := Option.some.inj (hpc.symm.trans hpc')
      exact hnot (hfds ▸ hmem)
    · exact .inl ⟨ho', .inr ⟨rfl, hn⟩⟩

/-- What a call leaves behind is all that it held. -/
theorem LogFdInv.leak (h : s.LogFdInv R) {fds : LogFds} {ok : Bool} (hpc : s.calls[i]? = some pc)
    (hfds : pc.fds = fds.both) : ((s.leak fds).goto i (.returned ok)).LogFdInv R := by
  refine h.of_call hpc (Table.keeps_pass (by simp) (hfds ▸ h.open_call hpc) _) s.replies _ ?_
    trivial
  refine h.exact_pass (s.leak fds) hpc hfds (by simp) rfl rfl fun o n => ?_
  cases o with
  | leaked => simp [Holds, LogFdSystem.leak, LogFds.both, or_comm, or_assoc]
  | _ => simp [Holds, LogFdSystem.leak]

/-- What is in `log_source` is closed, and nothing else. Its two numbers are different, so
each is closed once. -/
theorem LogFdInv.closeSource (h : s.LogFdInv R) : s.closeSource.LogFdInv R := by
  have hheld : ∀ n ∈ (s.source.map LogFds.both).getD [], s.Holds .source n := by
    intro n hn
    cases hsource : s.source with
    | none => simp [hsource] at hn
    | some fds => exact ⟨fds, hsource, by simpa [hsource] using hn⟩
  have hnodup : ((s.source.map LogFds.both).getD []).Nodup := by
    cases hsource : s.source with
    | none => simp
    | some fds => exact (h.source fds hsource).nodup
  refine h.of_keeps (P := (· ≠ .source))
    (Table.keeps_closeAll (by simp) fun n hn => h.exact.entry _ n (hheld n hn))
    (h.exact.closeAll hnodup hheld fun o n => ?_) (by simp [LogFdSystem.closeSource])
    (fun j pc hpc => .inl ⟨hpc, by simp⟩) fun r x hx _ => .inl ⟨hx, by simp⟩
  by_cases ho : o = .source
  · subst ho
    constructor
    · rintro ⟨fds, hfds, -⟩
      exact absurd hfds (by simp [LogFdSystem.closeSource])
    · rintro ⟨⟨fds, hfds, hn⟩, hnot⟩
      exact absurd hn (by simpa [hfds] using hnot)
  · have hsame : s.closeSource.Holds o n ↔ s.Holds o n := by
      cases o with
      | source => exact absurd rfl ho
      | _ => rfl
    rw [hsame]
    exact ⟨fun hn => ⟨hn, fun hmem => ho (h.exact.unique hn (hheld n hmem))⟩, And.left⟩

/-- The new numbers of a call are stored over an empty `log_source`. They come to
`log_source` from the call, with the streams of one reply under them. -/
theorem LogFdInv.storeSource (h : s.LogFdInv R) {fds : LogFds} (hpc : s.calls[i]? = some pc₀)
    (hfds : pc₀.fds = fds.both) (hpaired : Paired s.table (.call i) fds) (hnone : s.source = none)
    (hpcfds : pc.fds = []) (hok : ∀ t, PcOk t (.call i) pc) :
    (LogFdSystem.goto { s with table := s.table.pass fds.both .source, source := some fds } i
      pc).LogFdInv R := by
  let s' : LogFdSystem := { s with table := s.table.pass fds.both .source, source := some fds }
  refine h.of_keeps (P := (· ≠ .call i)) (Table.keeps_pass (by simp) hpaired.open _)
    (h.exact_pass s' hpc hfds (by simp) rfl hpcfds fun o n => ?_) ?_ ?_
    fun r x hx _ => .inl ⟨hx, by simp⟩
  · cases o with
    | source => simp [s', Holds, hnone]
    | _ => simp [s', Holds]
  · intro fds' hfds'
    obtain rfl : fds = fds' := Option.some.inj hfds'
    exact .inr (hpaired.pass .source)
  · intro j pc' hpc'
    rw [getElem_goto (s := s') hpc] at hpc'
    split at hpc'
    · next hj =>
        obtain rfl := Option.some.inj hpc'
        subst hj
        exact .inr (hok _)
    · next hj => exact .inl ⟨hpc', by simpa using hj⟩

/-- Where the readers stand after another one has been added. -/
theorem getElem_readers_append {x : FdReader} {r : ℕ} {y : FdReader}
    (h : (s.readers ++ [some x])[r]? = some (some y)) :
    s.readers[r]? = some (some y) ∨ r = s.readers.length ∧ y = x := by
  rcases Nat.lt_trichotomy r s.readers.length with hlt | rfl | hgt
  · exact .inl (by rwa [List.getElem?_append_left hlt] at h)
  · exact .inr ⟨rfl, by simpa using h.symm⟩
  · rw [List.getElem?_eq_none (by simp; omega)] at h
    exact absurd h (by simp)

/-- What `dup_from` does when it succeeds. -/
theorem dupReader_cases {fd stop : ℕ} {stream : LogFd} {consumer : Bool} {dup : Option ℕ}
    (h : s.dupReader fd stream stop consumer dup = some s') :
    s' = s ∨ ∃ n e, s.table.entry fd = some e ∧ s.table.entry n = none ∧
      s' = { s with
        table := s.table.openAt n e.file (.reader s.readers.length)
        readers := s.readers ++ [some { fd := n, stop, stream, consumer }] } := by
  cases dup with
  | none => exact .inl (Option.some.inj h).symm
  | some n =>
      rw [dupReader] at h
      split at h
      · next e he hfree => exact .inr ⟨n, e, he, hfree, (Option.some.inj h).symm⟩
      · exact absurd h (by simp)

/-- A new reader has a number of its own; one of `R` is for the stream that is open under the
number it duplicates. -/
theorem LogFdInv.dupReader (h : s.LogFdInv R) {fd stop : ℕ} {stream : LogFd} {consumer : Bool}
    {dup : Option ℕ} (hdup : s.dupReader fd stream stop consumer dup = some s')
    (hfile : ∀ n, R ⟨n, stop, stream, consumer⟩ →
      ∃ k o, s.table.entry fd = some ⟨.log k stream, o⟩) :
    s'.LogFdInv R := by
  rcases dupReader_cases hdup with rfl | ⟨n, e, he, hfree, rfl⟩
  · exact h
  · refine h.of_keeps (P := fun _ => True) (Table.keeps_openAt hfree _ _)
      (h.exact.openAt hfree _ fun o m => ?_) (fun fds hfds => .inl ⟨hfds, trivial⟩)
      (fun j pc hpc => .inl ⟨hpc, trivial⟩) ?_
    · cases o with
      | reader r =>
          constructor
          · rintro ⟨x, hx, rfl⟩
            rcases getElem_readers_append hx with hx | ⟨rfl, rfl⟩
            · exact .inl ⟨x, hx, rfl⟩
            · exact .inr ⟨rfl, rfl⟩
          · rintro (⟨x, hx, rfl⟩ | ⟨hr, rfl⟩)
            · have hlt : r < s.readers.length := (List.getElem?_eq_some_iff.mp hx).1
              exact ⟨x, by rw [List.getElem?_append_left hlt, hx], rfl⟩
            · obtain rfl := FdOwner.reader.inj hr
              exact ⟨_, List.getElem?_concat_length, rfl⟩
      | _ => simp [Holds]
    · intro r x hx hconsumer
      rcases getElem_readers_append hx with hx | ⟨rfl, rfl⟩
      · exact .inl ⟨hx, trivial⟩
      · obtain ⟨k, o, hk⟩ := hfile _ hconsumer
        obtain rfl : e = ⟨.log k stream, o⟩ := Option.some.inj (he.symm.trans hk)
        exact .inr ⟨k, by rw [Table.entry_openAt, if_pos rfl]⟩

/-- A reader that finishes closes its own duplicate. It is the only holder of it, and the
other readers are the same. -/
theorem LogFdInv.finish (h : s.LogFdInv R) {r : ℕ} {x : FdReader}
    (hx : s.readers[r]? = some (some x)) :
    LogFdInv R
      { s with table := s.table.close (.reader r) x.fd, readers := s.readers.set r none } := by
  have hheld : s.Holds (.reader r) x.fd := ⟨x, hx, rfl⟩
  have hlt : r < s.readers.length := (List.getElem?_eq_some_iff.mp hx).1
  have hreaders : ∀ (j : ℕ) (y : FdReader),
      (s.readers.set r none)[j]? = some (some y) ↔ j ≠ r ∧ s.readers[j]? = some (some y) := by
    intro j y
    rw [List.getElem?_set]
    by_cases hj : r = j
    · simp [hj]
    · simp [hj, Ne.symm hj]
  refine h.of_keeps (P := (· ≠ .reader r))
    (Table.closeAll_singleton s.table _ _ ▸ Table.keeps_closeAll (by simp) ?_)
    (h.exact.close hheld fun o n => ?_) (fun fds hfds => .inl ⟨hfds, by simp⟩)
    (fun j pc hpc => .inl ⟨hpc, by simp⟩) ?_
  · intro n hn
    obtain rfl := List.mem_singleton.mp hn
    exact h.exact.entry _ _ hheld
  · by_cases ho : o = .reader r
    · subst ho
      constructor
      · rintro ⟨y, hy, -⟩
        exact absurd rfl ((hreaders r y).mp hy).1
      · rintro ⟨⟨y, hy, rfl⟩, hne⟩
        obtain rfl : x = y := by simpa using hx.symm.trans hy
        exact absurd rfl hne
    · have hsame : Holds { s with
          table := s.table.close (.reader r) x.fd
          readers := s.readers.set r none } o n ↔ s.Holds o n := by
        cases o with
        | reader j =>
            have hj : j ≠ r := fun hj => ho (by rw [hj])
            simp only [Holds, hreaders, hj, ne_eq, not_false_eq_true, true_and]
        | _ => rfl
      rw [hsame]
      refine ⟨fun hn => ⟨hn, ?_⟩, And.left⟩
      rintro rfl
      exact ho (h.exact.unique hn hheld)
  · intro j y hy _
    obtain ⟨hj, hy⟩ := (hreaders j y).mp hy
    exact .inl ⟨hy, by simpa using hj⟩

/-- A new call has no numbers yet. It waits for the reply, and the calls before it are the
same. -/
theorem LogFdInv.start (h : s.LogFdInv R) :
    LogFdInv R { s with calls := s.calls ++ [.awaitLogs true] } := by
  have hcalls : ∀ (j : ℕ) (pc : FdPc), (s.calls ++ [.awaitLogs true])[j]? = some pc →
      s.calls[j]? = some pc ∨ pc = .awaitLogs true := by
    intro j pc hpc
    rw [List.getElem?_append] at hpc
    split at hpc
    · exact .inl hpc
    · exact .inr (List.mem_singleton.mp (List.mem_of_getElem? hpc))
  refine h.of_keeps (P := fun _ => True) (fun _ _ _ _ hn => hn) (h.exact.congr fun o n => ?_)
    (fun fds hfds => .inl ⟨hfds, trivial⟩) ?_ fun r x hx _ => .inl ⟨hx, trivial⟩
  · cases o with
    | call j =>
        constructor
        · rintro ⟨pc, hpc, hn⟩
          rcases hcalls j pc hpc with hpc | rfl
          · exact ⟨pc, hpc, hn⟩
          · exact absurd hn List.not_mem_nil
        · rintro ⟨pc, hpc, hn⟩
          have hlt : j < s.calls.length := (List.getElem?_eq_some_iff.mp hpc).1
          exact ⟨pc, by rw [List.getElem?_append_left hlt, hpc], hn⟩
    | _ => rfl
  · intro j pc hpc
    rcases hcalls j pc hpc with hpc | rfl
    · exact .inl ⟨hpc, trivial⟩
    · exact .inr trivial

/-- The rest of the process opens a file. -/
theorem LogFdInv.openOther (h : s.LogFdInv R) {n : ℕ} (hfree : s.table.entry n = none) :
    LogFdInv R
      { s with table := s.table.openAt n .foreign .others, others := insert n s.others } := by
  refine h.of_keeps (P := fun _ => True) (Table.keeps_openAt hfree _ _)
    (h.exact.openAt hfree _ fun o m => ?_) (fun fds hfds => .inl ⟨hfds, trivial⟩)
    (fun j pc hpc => .inl ⟨hpc, trivial⟩) fun r x hx _ => .inl ⟨hx, trivial⟩
  cases o with
  | others => simp [Holds, or_comm]
  | _ => simp [Holds]

/-- The rest of the process closes a file of its own. No part of the container holds
it. -/
theorem LogFdInv.closeOther (h : s.LogFdInv R) {n : ℕ} (hn : n ∈ s.others) :
    LogFdInv R { s with table := s.table.close .others n, others := s.others.erase n } := by
  have hheld : s.Holds .others n := hn
  refine h.of_keeps (P := (· ≠ .others))
    (Table.closeAll_singleton s.table _ _ ▸ Table.keeps_closeAll (by simp) ?_)
    (h.exact.close hheld fun o m => ?_) (fun fds hfds => .inl ⟨hfds, by simp⟩)
    (fun j pc hpc => .inl ⟨hpc, by simp⟩) fun r x hx _ => .inl ⟨hx, by simp⟩
  · intro m hm
    obtain rfl := List.mem_singleton.mp hm
    exact h.exact.entry _ _ hheld
  · by_cases ho : o = .others
    · subst ho
      simp [Holds, and_comm]
    · have hsame : Holds { s with
          table := s.table.close .others n, others := s.others.erase n } o m ↔ s.Holds o m := by
        cases o with
        | others => exact absurd rfl ho
        | _ => rfl
      rw [hsame]
      refine ⟨fun hm => ⟨hm, ?_⟩, And.left⟩
      rintro rfl
      exact ho (h.exact.unique hm hheld)

/-- The transitions of the system. -/
inductive Transition (s : LogFdSystem) : FdAction → LogFdSystem → Prop
  | new (fds : LogFds) (stream : LogFd) {dup : Option ℕ} {life : Life} {s₁ : LogFdSystem} :
      s.source = some fds →
      s.dupReader (fds.get stream) stream s.logStop true dup = some s₁ → s.life ≠ .alive →
      life ≠ .dropped → Transition s (.new dup) { s₁ with life := life }
  | started : s.life = .alive →
      Transition s .start { s with calls := s.calls ++ [.awaitLogs true] }
  | called {i : ℕ} {a : FdStep} {pc : FdPc} {s' : LogFdSystem} : s.calls[i]? = some pc →
      s.stepCall i pc a = some s' → Transition s (.call i a) s'
  | readEmpty {stream : LogFd} {dup : Option ℕ} : Transition s (.read stream dup) s
  | read {stream : LogFd} {dup : Option ℕ} {fds : LogFds} {s' : LogFdSystem} :
      s.source = some fds → s.dupReader (fds.get stream) stream s.logStop false dup = some s' →
      Transition s (.read stream dup) s'
  | finished {r : ℕ} {x : FdReader} : s.readers[r]? = some (some x) →
      Transition s (.finish r)
        { s with table := s.table.close (.reader r) x.fd, readers := s.readers.set r none }
  | stopped : Transition s .stopDelivery s.raise
  | dropped : (∀ pc ∈ s.calls, pc.Borrows = false) →
      Transition s .drop { s.raise.closeSource with life := .dropped }
  | opened {n : ℕ} : s.table.entry n = none →
      Transition s (.openOther n)
        { s with table := s.table.openAt n .foreign .others, others := insert n s.others }
  | closed {n : ℕ} : n ∈ s.others →
      Transition s (.closeOther n)
        { s with table := s.table.close .others n, others := s.others.erase n }

/-- **What one step does**: it is one of the transitions, with the guards of the step. One
case for each action, and in it for each way to go on. -/
theorem transition_of_step {a : FdAction} (h : s.step a = some s') : s.Transition a s' := by
  cases a with
  | new dup =>
      rw [step, stepNew] at h
      split at h
      · next fds hlife hsource =>
          obtain ⟨s₁, hdup, rfl⟩ := Option.map_eq_some_iff.mp h
          exact .new fds .stdout hsource hdup (by simp [hlife]) (by simp)
      · next fds hlife hsource =>
          obtain ⟨s₁, hdup, rfl⟩ := Option.map_eq_some_iff.mp h
          exact .new fds .stderr hsource hdup (by simp [hlife]) (by simp)
      · exact absurd h (by simp)
  | start =>
      rw [step] at h
      split at h
      · next hlife =>
          obtain rfl := Option.some.inj h
          exact .started hlife
      · exact absurd h (by simp)
  | call i a =>
      obtain ⟨pc, hpc, hcall⟩ := Option.bind_eq_some_iff.mp h
      exact .called hpc hcall
  | read stream dup =>
      rw [step] at h
      split at h
      · split at h
        · obtain rfl := Option.some.inj h
          exact .readEmpty
        · next fds hsource => exact .read hsource h
      · exact absurd h (by simp)
  | finish r =>
      rw [step] at h
      split at h
      · next x hx =>
          obtain rfl := Option.some.inj h
          exact .finished hx
      · exact absurd h (by simp)
  | stopDelivery =>
      rw [step] at h
      split at h
      · obtain rfl := Option.some.inj h
        exact .stopped
      · exact absurd h (by simp)
  | drop =>
      rw [step] at h
      split at h
      · next hall =>
          obtain rfl := Option.some.inj h
          exact .dropped fun pc hpc => by simpa using List.all_eq_true.mp hall.2 pc hpc
      · exact absurd h (by simp)
  | openOther n =>
      rw [step] at h
      split at h
      · next hfree =>
          obtain rfl := Option.some.inj h
          exact .opened hfree
      · exact absurd h (by simp)
  | closeOther n =>
      rw [step] at h
      split at h
      · next hn =>
          obtain rfl := Option.some.inj h
          exact .closed hn
      · exact absurd h (by simp)

/-- The calls a `dup_from` leaves as they are. -/
theorem calls_dupReader {fd stop : ℕ} {stream : LogFd} {consumer : Bool} {dup : Option ℕ}
    (h : s.dupReader fd stream stop consumer dup = some s') : s'.calls = s.calls := by
  rcases dupReader_cases h with rfl | ⟨n, e, -, -, rfl⟩ <;> rfl

/-- A call that spawns consumer tasks has just stored the numbers it duplicates. -/
def Stored (s : LogFdSystem) : FdPc → Prop
  | .spawnStdout fds _ | .spawnStderr fds _ => s.source = some fds
  | _ => True

/-- A consumer task is spawned by a call, which goes on. -/
theorem LogFdInv.spawn (h : s.LogFdInv R) (fds : LogFds) (stream : LogFd) {stop : ℕ}
    {dup : Option ℕ} (hpc : s.calls[i]? = some pc₀)
    (hdup : s.dupReader (fds.get stream) stream stop true dup = some s')
    (hR : (∀ x, R x → x.consumer = false) ∨ s.source = some fds) (hpc₀ : pc₀.fds = [])
    (hfds : pc.fds = []) (hok : PcOk s'.table (.call i) pc) :
    (s'.goto i pc).LogFdInv R := by
  have hs' : s'.LogFdInv R := by
    refine h.dupReader hdup fun n hx => ?_
    rcases hR with hR | hsource
    · exact absurd (hR _ hx) (by simp)
    · obtain ⟨k, hk⟩ := h.source fds hsource
      exact ⟨k, _, hk stream⟩
  exact hs'.goto (calls_dupReader hdup ▸ hpc) (hfds.trans hpc₀.symm) hok

/-- **A step of a call keeps the invariant**, one case for each place where the call can
stand; where consumer tasks are in `R`, what they duplicate must be what the call has
stored. -/
theorem LogFdInv.of_stepCall (h : s.LogFdInv R) {a : FdStep} (hpc : s.calls[i]? = some pc)
    (hR : (∀ x, R x → x.consumer = false) ∨ s.Stored pc) (hstep : s.stepCall i pc a = some s') :
    s'.LogFdInv R := by
  have hok := h.call i pc hpc
  unfold stepCall at hstep
  split at hstep
  · next waiting =>
      obtain rfl := Option.some.inj hstep
      exact h.goto hpc (fds_failed waiting) (pcOk_failed _ _ _)
  · next waiting fds =>
      obtain ⟨t, hdup, rfl⟩ := Option.map_eq_some_iff.mp hstep
      exact h.logsReply hpc hdup
  · next waiting fds =>
      split at hstep
      · next valid hvalid =>
          obtain ⟨hpaired, hfds⟩ := Replied.paired hok hvalid
          split at hstep
          · obtain rfl := Option.some.inj hstep
            exact h.goto hpc hfds.symm hpaired
          · obtain rfl := Option.some.inj hstep
            exact h.leak hpc hfds
      · obtain rfl := Option.some.inj hstep
        exact h.closeCall hpc
  · obtain rfl := Option.some.inj hstep
    exact h.goto hpc rfl trivial
  · obtain rfl := Option.some.inj hstep
    exact h.goto hpc rfl hok
  · obtain rfl := Option.some.inj hstep
    exact h.leak hpc rfl
  · obtain rfl := Option.some.inj hstep
    exact h.goto hpc rfl trivial
  · obtain rfl := Option.some.inj hstep
    exact h.raise.goto hpc rfl hok
  · next fds =>
      obtain rfl := Option.some.inj hstep
      have hflags : LogFdInv R
          { s with flags := s.flags ++ [false], logStop := s.flags.length } :=
        ⟨h.exact.congr fun o n => by cases o <;> rfl, h.source, h.call, h.reader⟩
      exact hflags.goto hpc rfl hok
  · next fds stop =>
      obtain rfl := Option.some.inj hstep
      have hclosed := h.closeSource
      refine hclosed.storeSource hpc rfl (hclosed.call i _ hpc) rfl ?_ fun t => ?_
      · split <;> rfl
      · split <;> trivial
  · next fds stop dup =>
      obtain ⟨s₁, hdup, rfl⟩ := Option.map_eq_some_iff.mp hstep
      exact h.spawn fds .stdout hpc hdup hR rfl rfl trivial
  · next fds stop dup =>
      obtain ⟨s₁, hdup, rfl⟩ := Option.map_eq_some_iff.mp hstep
      exact h.spawn fds .stderr hpc hdup hR rfl rfl trivial
  · obtain rfl := Option.some.inj hstep
    exact h.raise.goto hpc rfl trivial
  · exact absurd hstep (by simp)

/-- **Every step keeps the account of the numbers**, with the consumer tasks among the readers of
`R` if the calls duplicate the numbers that are in `log_source`. -/
theorem LogFdInv.of_step (h : s.LogFdInv R) {a : FdAction}
    (hR : (∀ x, R x → x.consumer = false) ∨ ∀ pc ∈ s.calls, s.Stored pc)
    (hstep : s.step a = some s') : s'.LogFdInv R := by
  cases transition_of_step hstep with
  | new fds stream hsource hdup hlife hlife' =>
      obtain ⟨k, hk⟩ := h.source _ hsource
      have h₁ := h.dupReader hdup fun _ _ => ⟨k, _, hk _⟩
      exact ⟨h₁.exact.congr fun o n => by cases o <;> rfl, h₁.source, h₁.call, h₁.reader⟩
  | started hlife => exact h.start
  | called hpc hcall =>
      exact h.of_stepCall hpc (hR.imp_right fun h => h _ (List.mem_of_getElem? hpc)) hcall
  | readEmpty => exact h
  | read hsource hdup =>
      obtain ⟨k, hk⟩ := h.source _ hsource
      exact h.dupReader hdup fun _ _ => ⟨k, _, hk _⟩
  | finished hx => exact h.finish hx
  | stopped => exact h.raise
  | dropped hidle =>
      have hclosed := h.raise.closeSource
      exact ⟨hclosed.exact.congr fun o n => by cases o <;> rfl, hclosed.source, hclosed.call,
        hclosed.reader⟩
  | opened hfree => exact h.openOther hfree
  | closed hn => exact h.closeOther hn

/-! ### The life of the container, and what is leaked -/

/-- Only a live container is borrowed by a call, and a dropped one has no numbers. -/
structure LifeOk (s : LogFdSystem) : Prop where
  borrowed : ∀ (i : ℕ) (pc : FdPc), s.calls[i]? = some pc → pc.Borrows = true → s.life = .alive
  dropped : s.life = .dropped → s.source = none

/-- What a step of a call does to the rest: it moves on without borrowing anew, `log_source`
changes under a borrow only, and what is leaked is paid for by a cancellation. -/
structure CallFrame (s s' : LogFdSystem) (i : ℕ) (pc : FdPc) (a : FdStep) (pc' : FdPc) : Prop where
  calls : s'.calls = s.calls.set i pc'
  borrows : pc'.Borrows = true → pc.Borrows = true
  life : s'.life = s.life
  source : s'.source = s.source ∨ pc.Borrows = true
  leaked : s'.leaked.card + pc'.debt ≤ s.leaked.card + pc.debt + if a.isCancel then 2 else 0

/-- A new reader changes the table and the list of readers, and nothing else. -/
theorem frame_dupReader {fd stop : ℕ} {stream : LogFd} {consumer : Bool} {dup : Option ℕ}
    (h : s.dupReader fd stream stop consumer dup = some s') :
    s'.life = s.life ∧ s'.source = s.source ∧ s'.leaked = s.leaked ∧ s'.calls = s.calls ∧
      s'.flags = s.flags ∧ s'.logStop = s.logStop := by
  rcases dupReader_cases h with rfl | ⟨n, e, -, -, rfl⟩ <;> exact ⟨rfl, rfl, rfl, rfl, rfl, rfl⟩

/-- A call that only moves on changes nothing else. -/
theorem callFrame_goto {a : FdStep} (hborrows : pc.Borrows = true → pc₀.Borrows = true)
    (hdebt : pc.debt ≤ pc₀.debt + if a.isCancel then 2 else 0) :
    CallFrame s (s.goto i pc) i pc₀ a pc :=
  ⟨rfl, hborrows, rfl, .inl rfl, by
    rw [Nat.add_assoc]
    exact Nat.add_le_add_left hdebt s.leaked.card⟩

/-- A call that leaks its numbers has been cancelled, or is being cancelled. -/
theorem callFrame_leak {fds : LogFds} {ok : Bool} {a : FdStep}
    (hdebt : 2 ≤ pc.debt + if a.isCancel then 2 else 0) :
    CallFrame s ((s.leak fds).goto i (.returned ok)) i pc a (.returned ok) := by
  refine ⟨rfl, by simp [FdPc.Borrows], rfl, .inl rfl, ?_⟩
  have hout : (insert fds.stdout (insert fds.stderr s.leaked)).card ≤
      (insert fds.stderr s.leaked).card + 1 := Finset.card_insert_le _ _
  have herr : (insert fds.stderr s.leaked).card ≤ s.leaked.card + 1 := Finset.card_insert_le _ _
  change (insert fds.stdout (insert fds.stderr s.leaked)).card + 0 ≤ _
  omega

/-- A call that spawns a consumer task borrows the container and leaves nothing behind. -/
theorem callFrame_spawn {fd stop : ℕ} {stream : LogFd} {dup : Option ℕ} {a : FdStep}
    (hdup : s.dupReader fd stream stop true dup = some s') (hborrows : pc₀.Borrows = true)
    (hdebt : pc.debt = 0) : CallFrame s (s'.goto i pc) i pc₀ a pc := by
  obtain ⟨hlife, hsource, hleaked, hcalls, -⟩ := frame_dupReader hdup
  refine ⟨congrArg (List.set · i pc) hcalls, fun _ => hborrows, hlife, .inl hsource, ?_⟩
  change s'.leaked.card + pc.debt ≤ _
  rw [hleaked, hdebt]
  omega

/-- A call whose request has failed borrows the container if somebody waits for it. -/
theorem borrows_failed (waiting : Bool) : (failed waiting).Borrows = waiting := by
  cases waiting <;> rfl

/-- A call whose request has failed leaves no numbers behind. -/
theorem debt_failed (waiting : Bool) : (failed waiting).debt = 0 := by cases waiting <;> rfl

/-- **What a step of a call leaves alone**, one case for each place where the call can
stand. -/
theorem callFrame_of_stepCall {a : FdStep} (hstep : s.stepCall i pc a = some s') :
    ∃ pc', CallFrame s s' i pc a pc' := by
  unfold stepCall at hstep
  split at hstep
  · next waiting =>
      obtain rfl := Option.some.inj hstep
      refine ⟨_, callFrame_goto (fun h => borrows_failed waiting ▸ h) ?_⟩
      rw [debt_failed]
      exact Nat.zero_le _
  · next waiting fds =>
      obtain ⟨t, -, rfl⟩ := Option.map_eq_some_iff.mp hstep
      exact ⟨_, rfl, id, rfl, .inl rfl, by cases waiting <;> exact Nat.le_refl _⟩
  · next waiting fds =>
      split at hstep
      · next valid hvalid =>
          split at hstep
          · next hwaiting =>
              obtain rfl := Option.some.inj hstep
              exact ⟨_, callFrame_goto (fun _ => hwaiting) (Nat.zero_le _)⟩
          · next hwaiting =>
              obtain rfl := Option.some.inj hstep
              obtain rfl : waiting = false := by simpa using hwaiting
              exact ⟨_, callFrame_leak (Nat.le_refl 2)⟩
      · obtain rfl := Option.some.inj hstep
        refine ⟨_, rfl, fun h => borrows_failed waiting ▸ h, rfl, .inl rfl, ?_⟩
        rw [debt_failed]
        exact Nat.le_add_right_of_le (Nat.le_add_right _ _)
  · obtain rfl := Option.some.inj hstep
    exact ⟨_, callFrame_goto (fun _ => rfl) (Nat.le_refl 2)⟩
  · obtain rfl := Option.some.inj hstep
    exact ⟨_, callFrame_goto (fun _ => rfl) (Nat.le_refl 2)⟩
  · obtain rfl := Option.some.inj hstep
    exact ⟨_, callFrame_leak (Nat.le_refl 2)⟩
  · obtain rfl := Option.some.inj hstep
    exact ⟨_, callFrame_goto (fun _ => rfl) (Nat.zero_le _)⟩
  · obtain rfl := Option.some.inj hstep
    exact ⟨_, rfl, fun _ => rfl, rfl, .inl rfl, Nat.le_refl _⟩
  · obtain rfl := Option.some.inj hstep
    exact ⟨_, rfl, fun _ => rfl, rfl, .inl rfl, Nat.le_refl _⟩
  · obtain rfl := Option.some.inj hstep
    refine ⟨_, rfl, fun _ => rfl, rfl, .inr rfl, ?_⟩
    split <;> exact Nat.le_refl _
  · obtain ⟨s₁, hdup, rfl⟩ := Option.map_eq_some_iff.mp hstep
    exact ⟨_, callFrame_spawn hdup rfl rfl⟩
  · obtain ⟨s₁, hdup, rfl⟩ := Option.map_eq_some_iff.mp hstep
    exact ⟨_, callFrame_spawn hdup rfl rfl⟩
  · obtain rfl := Option.some.inj hstep
    exact ⟨_, rfl, fun _ => rfl, rfl, .inl rfl, Nat.le_refl _⟩
  · exact absurd hstep (by simp)

/-- The life of the container depends on the calls, its state and `log_source` alone. -/
theorem LifeOk.congr (h : s.LifeOk) (hcalls : s'.calls = s.calls) (hlife : s'.life = s.life)
    (hsource : s'.source = s.source) : s'.LifeOk :=
  ⟨fun i pc hpc hborrows => hlife.trans (h.borrowed i pc (hcalls ▸ hpc) hborrows),
    fun hdropped => hsource.trans (h.dropped (hlife ▸ hdropped))⟩

/-- A step of a call borrows nothing anew, so it leaves the life of the container in
order. -/
theorem LifeOk.of_stepCall (h : s.LifeOk) {a : FdStep} (hpc : s.calls[i]? = some pc)
    (hstep : s.stepCall i pc a = some s') : s'.LifeOk := by
  obtain ⟨pc', hframe⟩ := callFrame_of_stepCall hstep
  constructor
  · intro j pcj hpcj hborrows
    have hcalls : (s.goto i pc').calls[j]? = some pcj := by
      rw [LogFdSystem.goto, ← hframe.calls]
      exact hpcj
    rw [getElem_goto hpc] at hcalls
    rw [hframe.life]
    split at hcalls
    · obtain rfl := Option.some.inj hcalls
      exact h.borrowed i pc hpc (hframe.borrows hborrows)
    · exact h.borrowed j pcj hcalls hborrows
  · intro hdropped
    rw [hframe.life] at hdropped
    rcases hframe.source with hsource | hborrows
    · exact hsource.trans (h.dropped hdropped)
    · exact absurd ((h.borrowed i pc hpc hborrows).symm.trans hdropped) (by simp)

/-- **Every step leaves the life of the container in order**: it is dropped only when
nobody borrows it, and with its numbers closed. -/
theorem LifeOk.of_step (h : s.LifeOk) {a : FdAction} (hstep : s.step a = some s') : s'.LifeOk := by
  cases transition_of_step hstep with
  | new fds stream hsource hdup hlife hlife' =>
      obtain ⟨-, -, -, hcalls, -⟩ := frame_dupReader hdup
      refine ⟨fun i pc hpc hborrows => ?_, fun hdropped => absurd hdropped hlife'⟩
      exact absurd (h.borrowed i pc (hcalls ▸ hpc) hborrows) hlife
  | started hlife => exact ⟨fun _ _ _ _ => hlife, h.dropped⟩
  | called hpc hcall => exact h.of_stepCall hpc hcall
  | readEmpty => exact h
  | read hsource hdup =>
      obtain ⟨hlife, hsource', -, hcalls, -⟩ := frame_dupReader hdup
      exact h.congr hcalls hlife hsource'
  | dropped hidle =>
      refine ⟨fun i pc hpc hborrows => ?_, fun _ => rfl⟩
      exact absurd ((hidle pc (List.mem_of_getElem? hpc)).symm.trans hborrows) (by simp)
  | finished | stopped | opened | closed => exact h.congr rfl rfl rfl

/-- A new container is borrowed by nobody. -/
theorem lifeOk_init (source : Option LogFds) (consumers : Bool) :
    (init source consumers).LifeOk := by
  refine ⟨by simp [init], fun hdropped => ?_⟩
  dsimp only [init] at hdropped
  split at hdropped <;> simp at hdropped

/-- What is leaked, and may still be. -/
def debt (s : LogFdSystem) : ℕ := s.leaked.card + (s.calls.map FdPc.debt).sum

/-- Moving one call on changes the sum by its share. By induction on the list of calls,
down to the one that moves. -/
theorem sum_debt_set {calls : List FdPc} (hpc : calls[i]? = some pc₀) (pc : FdPc) :
    ((calls.set i pc).map FdPc.debt).sum + pc₀.debt = (calls.map FdPc.debt).sum + pc.debt := by
  induction calls generalizing i with
  | nil => simp at hpc
  | cons c calls ih =>
      cases i with
      | zero =>
          obtain rfl : c = pc₀ := Option.some.inj hpc
          simp only [List.set_cons_zero, List.map_cons, List.sum_cons]
          omega
      | succ i =>
          have hrest := ih (i := i) hpc
          simp only [List.set_cons_succ, List.map_cons, List.sum_cons]
          omega

/-- Only a cancellation adds to what is leaked or may be. One case for each
transition: the step of a call is counted with what it leaves behind, and the others
change neither. -/
theorem debt_le_of_step {a : FdAction} (hstep : s.step a = some s') :
    s'.debt ≤ s.debt + if a.isCancel then 2 else 0 := by
  have hsame : s'.calls = s.calls → s'.leaked = s.leaked →
      s'.debt ≤ s.debt + if a.isCancel then 2 else 0 := by
    intro hcalls hleaked
    rw [debt, debt, hcalls, hleaked]
    exact Nat.le_add_right _ _
  cases transition_of_step hstep with
  | new fds stream hsource hdup hlife hlife' =>
      obtain ⟨-, -, hleaked, hcalls, -⟩ := frame_dupReader hdup
      exact hsame hcalls hleaked
  | started hlife => simp [debt, FdPc.debt]
  | called hpc hcall =>
      obtain ⟨pc', hframe⟩ := callFrame_of_stepCall hcall
      have hsum := sum_debt_set hpc pc'
      have hleaked := hframe.leaked
      rw [debt, debt, hframe.calls, FdAction.isCancel]
      omega
  | read hsource hdup =>
      obtain ⟨-, -, hleaked, hcalls, -⟩ := frame_dupReader hdup
      exact hsame hcalls hleaked
  | readEmpty | finished | stopped | dropped | opened | closed => exact hsame rfl rfl

/-- **Whose every number is.** In every run of overlapping restarts, readers and the rest of the
process: the container closes no number of somebody else; every number in use is held by the one
who has to close it, and only by him; `log_source` has the two streams of one reply, and a
reader that `stdout` or `stderr` has handed out has a log stream of its kind; a dropped container
holds nothing; and each cancelled call leaves two numbers behind at most. -/
theorem logFds_owned (source : Option LogFds) (consumers : Bool)
    (hne : ∀ fds, source = some fds → fds.stdout ≠ fds.stderr) {as : List FdAction}
    (hrun : Runs.run step (init source consumers) as = some s) :
    s.table.fault = false ∧
    (∀ o n, s.Holds o n ↔ ∃ f, s.table.entry n = some ⟨f, o⟩) ∧
    (∀ fds, s.source = some fds → ∃ k, ∀ stream,
      s.table.entry (fds.get stream) = some ⟨.log k stream, .source⟩) ∧
    (∀ r x, s.readers[r]? = some (some x) → x.consumer = false →
      ∃ k, s.table.entry x.fd = some ⟨.log k x.stream, .reader r⟩) ∧
    (s.life = .dropped → s.source = none ∧ ∀ pc ∈ s.calls, pc.Borrows = false) ∧
    s.leaked.card ≤ 2 * as.countP FdAction.isCancel := by
  have hinv : s.LogFdInv fun x => x.consumer = false :=
    Runs.invariant_of_run (fun _ _ _ h hs => h.of_step (.inl fun _ hx => hx) hs)
      (logFdInv_init source consumers hne) hrun
  have hlife : s.LifeOk := Runs.invariant_of_run (fun _ _ _ h hs => h.of_step hs)
    (lifeOk_init source consumers) hrun
  have hdebt : s.debt ≤ (init source consumers).debt + 2 * as.countP FdAction.isCancel :=
    Runs.le_add_countP_of_run debt FdAction.isCancel 2 (fun _ _ _ hs => debt_le_of_step hs) hrun
  refine ⟨hinv.exact.sound, fun o n => ⟨hinv.exact.entry o n, ?_⟩, hinv.source, hinv.reader,
    fun hdropped => ⟨hlife.dropped hdropped, fun pc hpc => ?_⟩, ?_⟩
  · rintro ⟨f, hf⟩
    exact hinv.exact.held n _ hf
  · obtain ⟨i, hi⟩ := List.getElem?_of_mem hpc
    rw [Bool.eq_false_iff]
    intro hborrows
    exact absurd ((hlife.borrowed i pc hi hborrows).symm.trans hdropped) (by simp)
  · have hinit : (init source consumers).debt = 0 := rfl
    rw [hinit, Nat.zero_add] at hdebt
    exact Nat.le_trans (Nat.le_add_right _ _) hdebt

/-! ### Restarts one after the other -/

/-- What a call behind the reply relies on: its flag is the current one, and what it duplicates
is in `log_source`. -/
def PcSerial (s : LogFdSystem) : FdPc → Prop
  | .renewStop _ => s.flags[s.logStop]? = some true
  | .swapSource _ stop => stop = s.logStop
  | .spawnStdout fds stop | .spawnStderr fds stop => stop = s.logStop ∧ s.source = some fds
  | _ => True

/-- One call at most is behind the reply, and every stop flag but the current one is set. -/
structure Serial (s : LogFdSystem) : Prop where
  alone : ∀ (i j : ℕ) (pc pc' : FdPc), s.calls[i]? = some pc → s.calls[j]? = some pc' →
    pc.Section = true → pc'.Section = true → i = j
  call : ∀ (i : ℕ) (pc : FdPc), s.calls[i]? = some pc → s.PcSerial pc
  logStop : s.logStop < s.flags.length
  flags : ∀ f, f < s.flags.length → f ≠ s.logStop → s.flags[f]? = some true
  dropped : s.life = .dropped → s.flags[s.logStop]? = some true
  readers : ∀ (r : ℕ) (x : FdReader), s.readers[r]? = some (some x) → x.stop < s.flags.length

/-- A call raises the stop flag only when no other one is behind the reply. -/
def Alone (s : LogFdSystem) (a : FdAction) : Prop :=
  a.raises = true → ∀ pc ∈ s.calls, pc.Section = false

instance (s : LogFdSystem) (a : FdAction) : Decidable (s.Alone a) :=
  inferInstanceAs (Decidable (a.raises = true → ∀ pc ∈ s.calls, pc.Section = false))

/-- A call that relies on its flag and its numbers has stored these numbers. -/
theorem PcSerial.stored (h : s.PcSerial pc) : s.Stored pc := by
  cases pc with
  | spawnStdout fds stop | spawnStderr fds stop => exact h.2
  | _ => trivial

/-- Before the reply a call relies on nothing. -/
theorem pcSerial_of_outside (h : pc.Section = false) : s.PcSerial pc := by
  cases pc with
  | renewStop fds | swapSource fds stop | spawnStdout fds stop | spawnStderr fds stop =>
      exact absurd h (by simp [FdPc.Section])
  | _ => trivial

/-- What a call relies on depends on the flags and `log_source` alone. -/
theorem PcSerial.congr (h : s.PcSerial pc) (hflags : s'.flags = s.flags)
    (hlogStop : s'.logStop = s.logStop) (hsource : s'.source = s.source) : s'.PcSerial pc := by
  cases pc <;> simp_all [PcSerial]

/-- A set flag disturbs no call. -/
theorem PcSerial.raise (h : s.PcSerial pc) (hlogStop : s.logStop < s.flags.length) :
    s.raise.PcSerial pc := by
  cases pc with
  | renewStop fds => exact List.getElem?_set_self hlogStop
  | _ => exact h

/-- The flags once the current one has been raised. -/
theorem getElem_raise (s : LogFdSystem) (hlogStop : s.logStop < s.flags.length) (f : ℕ) :
    s.raise.flags[f]? = if f = s.logStop then some true else s.flags[f]? := by
  rw [LogFdSystem.raise, List.getElem?_set]
  by_cases hf : s.logStop = f
  · rw [if_pos hf, if_pos hf.symm, if_pos hlogStop]
  · rw [if_neg hf, if_neg (Ne.symm hf)]

/-- Raising the current flag leaves the restarts in order, since it was allowed to be
unset. -/
theorem Serial.raise (h : s.Serial) : s.raise.Serial where
  alone := h.alone
  call := fun i pc hpc => (h.call i pc hpc).raise h.logStop
  logStop := by
    rw [LogFdSystem.raise, List.length_set]
    exact h.logStop
  flags := by
    intro f hf hne
    rw [LogFdSystem.raise, List.length_set] at hf
    exact (getElem_raise s h.logStop f).trans ((if_neg hne).trans (h.flags f hf hne))
  dropped := fun _ => (getElem_raise s h.logStop _).trans (if_pos rfl)
  readers := by
    intro r x hx
    rw [LogFdSystem.raise, List.length_set]
    exact h.readers r x hx

/-- A new container has one flag, the current one, and no restart. -/
theorem serial_init (source : Option LogFds) (consumers : Bool) :
    (init source consumers).Serial := by
  refine ⟨by simp [init], by simp [init], by simp [init], ?_, fun hdropped => ?_, by simp [init]⟩
  · intro f hf hne
    exact absurd (Nat.lt_one_iff.mp hf) hne
  · dsimp only [init] at hdropped
    split at hdropped <;> simp at hdropped

/-- The state the calls share is the same, and no reader is new. -/
structure SameShared (s s' : LogFdSystem) : Prop where
  flags : s'.flags = s.flags
  logStop : s'.logStop = s.logStop
  source : s'.source = s.source
  life : s'.life = s.life
  readers : ∀ (r : ℕ) (x : FdReader), s'.readers[r]? = some (some x) →
    s.readers[r]? = some (some x) ∨ x.stop < s.flags.length

/-- A call moves on: it gets behind the reply alone, and whoever is there is not
disturbed. Two calls behind the reply would be the one that moves and another one, which
it has found nobody to be. -/
theorem Serial.move (h : s.Serial) (hpc : s.calls[i]? = some pc₀)
    (hsection : pc.Section = true → pc₀.Section = true ∨ ∀ c ∈ s.calls, c.Section = false)
    (hself : s.PcSerial pc) : (s.goto i pc).Serial where
  alone := by
    have hone : ∀ j c, s.calls[j]? = some c → c.Section = true → pc.Section = true → j = i := by
      intro j c hc hcs hpcs
      rcases hsection hpcs with hpc₀ | hnone
      · exact h.alone j i c pc₀ hc hpc hcs hpc₀
      · exact absurd ((hnone c (List.mem_of_getElem? hc)).symm.trans hcs) (by simp)
    intro j k c c' hc hc' hcs hcs'
    rw [getElem_goto hpc] at hc hc'
    split at hc
    · next hj =>
        obtain rfl := Option.some.inj hc
        split at hc'
        · next hk => rw [hj, hk]
        · exact hj.trans (hone k c' hc' hcs' hcs).symm
    · split at hc'
      · next hk =>
          obtain rfl := Option.some.inj hc'
          exact (hone j c hc hcs hcs').trans hk.symm
      · exact h.alone j k c c' hc hc' hcs hcs'
  call := by
    intro j c hc
    rw [getElem_goto hpc] at hc
    split at hc
    · obtain rfl := Option.some.inj hc
      exact hself.congr rfl rfl rfl
    · exact (h.call j c hc).congr rfl rfl rfl
  logStop := h.logStop
  flags := h.flags
  dropped := h.dropped
  readers := h.readers

/-- A step that leaves what the calls share leaves the restarts in order. -/
theorem Serial.same (h : s.Serial) (hshared : SameShared s s') (hcalls : s'.calls = s.calls) :
    s'.Serial where
  alone := hcalls ▸ h.alone
  call := fun j c hc =>
    (h.call j c (hcalls ▸ hc)).congr hshared.flags hshared.logStop hshared.source
  logStop := by rw [hshared.flags, hshared.logStop]; exact h.logStop
  flags := by rw [hshared.flags, hshared.logStop]; exact h.flags
  dropped := by rw [hshared.flags, hshared.logStop, hshared.life]; exact h.dropped
  readers := by
    intro r x hx
    rw [hshared.flags]
    exact (hshared.readers r x hx).elim (h.readers r x) id

/-- A call that is alone behind the reply may change the shared state. Nobody else is
behind the reply, and those outside rely on nothing. -/
theorem Serial.change (h : s.Serial) (hpc : s.calls[i]? = some pc₀) (hpc₀ : pc₀.Section = true)
    (hcalls : s'.calls = s.calls.set i pc) (hself : s'.PcSerial pc)
    (hlogStop : s'.logStop < s'.flags.length)
    (hflags : ∀ f, f < s'.flags.length → f ≠ s'.logStop → s'.flags[f]? = some true)
    (hlife : s'.life ≠ .dropped) (hreaders : s'.readers = s.readers)
    (hlength : s.flags.length ≤ s'.flags.length) : s'.Serial := by
  have hothers : ∀ (j : ℕ) (c : FdPc),
      s'.calls[j]? = some c → j = i ∧ c = pc ∨ c.Section = false := by
    intro j c hc
    have hgoto : (s.goto i pc).calls[j]? = some c := by rw [LogFdSystem.goto, ← hcalls, hc]
    rw [getElem_goto hpc] at hgoto
    split at hgoto
    · next hj => exact .inl ⟨hj, (Option.some.inj hgoto).symm⟩
    · next hj =>
        refine .inr (Bool.eq_false_iff.mpr fun hcs => hj ?_)
        exact h.alone j i c pc₀ hgoto hpc hcs hpc₀
  refine ⟨?_, ?_, hlogStop, hflags, fun hdropped => absurd hdropped hlife, ?_⟩
  · intro j k c c' hc hc' hcs hcs'
    rcases hothers j c hc with ⟨hj, -⟩ | hout
    · rcases hothers k c' hc' with ⟨hk, -⟩ | hout
      · exact hj.trans hk.symm
      · exact absurd (hout.symm.trans hcs') (by simp)
    · exact absurd (hout.symm.trans hcs) (by simp)
  · intro j c hc
    rcases hothers j c hc with ⟨-, rfl⟩ | hout
    · exact hself
    · exact pcSerial_of_outside hout
  · intro r x hx
    exact Nat.lt_of_lt_of_le (h.readers r x (hreaders ▸ hx)) hlength

/-- What a `dup_from` leaves as it is; the new reader has the flag it was given. -/
theorem sameShared_dupReader {fd stop : ℕ} {stream : LogFd} {consumer : Bool} {dup : Option ℕ}
    (h : s.dupReader fd stream stop consumer dup = some s') (hstop : stop < s.flags.length) :
    SameShared s s' := by
  rcases dupReader_cases h with rfl | ⟨n, e, -, -, rfl⟩
  · exact ⟨rfl, rfl, rfl, rfl, fun r x hx => .inl hx⟩
  · refine ⟨rfl, rfl, rfl, rfl, fun r x hx => ?_⟩
    rcases getElem_readers_append hx with hx | ⟨-, rfl⟩
    · exact .inl hx
    · exact .inr hstop

/-- A call before the reply, or behind its return, moves on outside. -/
theorem Serial.outside (h : s.Serial) (hpc : s.calls[i]? = some pc₀) (hout : pc.Section = false) :
    (s.goto i pc).Serial :=
  h.move hpc (fun hin => absurd (hout.symm.trans hin) (by simp)) (pcSerial_of_outside hout)

/-- The state the calls share is the same. -/
theorem Serial.quiet (h : s.Serial) (t : Table File FdOwner) (replies : ℕ) (leaked : Finset ℕ) :
    Serial { s with table := t, replies := replies, leaked := leaked } :=
  h.same ⟨rfl, rfl, rfl, rfl, fun _ _ hx => .inl hx⟩ rfl

/-- A call whose request has failed is not behind the reply. -/
theorem section_failed (waiting : Bool) : (failed waiting).Section = false := by
  cases waiting <;> rfl

/-- **A step of a call leaves the restarts in order** if it gets behind the reply alone;
one case for each place where the call can stand. -/
theorem Serial.of_stepCall (h : s.Serial) (hlife : s.LifeOk) {a : FdStep}
    (hpc : s.calls[i]? = some pc) (hstep : s.stepCall i pc a = some s')
    (halone : s.Alone (.call i a)) : s'.Serial := by
  have hself := h.call i pc hpc
  unfold stepCall at hstep
  split at hstep
  · next waiting =>
      obtain rfl := Option.some.inj hstep
      exact h.outside hpc (section_failed waiting)
  · next waiting fds =>
      obtain ⟨t, -, rfl⟩ := Option.map_eq_some_iff.mp hstep
      exact (h.quiet t (s.replies + 1) s.leaked).outside hpc rfl
  · next waiting fds =>
      split at hstep
      · next valid hvalid =>
          split at hstep
          · obtain rfl := Option.some.inj hstep
            exact h.outside hpc rfl
          · obtain rfl := Option.some.inj hstep
            exact (h.quiet _ s.replies _).outside hpc rfl
      · obtain rfl := Option.some.inj hstep
        exact (h.quiet _ s.replies s.leaked).outside hpc (section_failed waiting)
  · obtain rfl := Option.some.inj hstep
    exact h.outside hpc rfl
  · obtain rfl := Option.some.inj hstep
    exact h.outside hpc rfl
  · obtain rfl := Option.some.inj hstep
    exact (h.quiet _ s.replies _).outside hpc rfl
  · obtain rfl := Option.some.inj hstep
    exact h.outside hpc rfl
  · obtain rfl := Option.some.inj hstep
    exact h.raise.move hpc (fun _ => .inr (halone rfl))
      ((getElem_raise s h.logStop _).trans (if_pos rfl))
  · next fds =>
      obtain rfl := Option.some.inj hstep
      have halive := hlife.borrowed i _ hpc rfl
      refine h.change hpc rfl rfl rfl (by simp [goto]) ?_ (by simp [goto, halive]) rfl
        (by simp [goto])
      intro f hf hne
      change f < (s.flags ++ [false]).length at hf
      change f ≠ s.flags.length at hne
      rw [List.length_append, List.length_singleton] at hf
      have hlt : f < s.flags.length := by omega
      refine (List.getElem?_append_left hlt).trans ?_
      by_cases hold : f = s.logStop
      · exact hold ▸ hself
      · exact h.flags f hlt hold
  · next fds stop =>
      obtain rfl := Option.some.inj hstep
      have halive := hlife.borrowed i _ hpc rfl
      refine h.change hpc rfl rfl ?_ h.logStop h.flags (by simp [goto, closeSource, halive]) rfl
        (Nat.le_refl _)
      split
      · exact ⟨hself, rfl⟩
      · trivial
  · next fds stop dup =>
      obtain ⟨s₁, hdup, rfl⟩ := Option.map_eq_some_iff.mp hstep
      obtain ⟨rfl, hsource⟩ : stop = s.logStop ∧ s.source = some fds := hself
      have hsame := sameShared_dupReader hdup h.logStop
      have hcalls := calls_dupReader hdup
      refine (h.same hsame hcalls).move (hcalls ▸ hpc) (fun _ => .inl rfl) ?_
      exact ⟨hsame.logStop.symm, hsame.source.trans hsource⟩
  · next fds stop dup =>
      obtain ⟨s₁, hdup, rfl⟩ := Option.map_eq_some_iff.mp hstep
      obtain ⟨rfl, hsource⟩ : stop = s.logStop ∧ s.source = some fds := hself
      have hcalls := calls_dupReader hdup
      exact (h.same (sameShared_dupReader hdup h.logStop) hcalls).outside (hcalls ▸ hpc) rfl
  · obtain rfl := Option.some.inj hstep
    exact h.raise.outside hpc rfl
  · exact absurd hstep (by simp)

/-- **A step keeps the restarts in order** if no call gets behind the reply while another one is
there. -/
theorem Serial.of_step (h : s.Serial) (hlife : s.LifeOk) {a : FdAction}
    (hstep : s.step a = some s') (halone : s.Alone a) : s'.Serial := by
  cases transition_of_step hstep with
  | new fds stream hsource hdup hnotalive hlife' =>
      have hsame := h.same (sameShared_dupReader hdup h.logStop) (calls_dupReader hdup)
      exact ⟨hsame.alone, hsame.call, hsame.logStop, hsame.flags,
        fun hdropped => absurd hdropped hlife', hsame.readers⟩
  | started halive =>
      have hcalls : ∀ (j : ℕ) (c : FdPc), (s.calls ++ [.awaitLogs true])[j]? = some c →
          s.calls[j]? = some c ∨ c.Section = false := by
        intro j c hc
        rw [List.getElem?_append] at hc
        split at hc
        · exact .inl hc
        · obtain rfl := List.mem_singleton.mp (List.mem_of_getElem? hc)
          exact .inr rfl
      refine ⟨?_, ?_, h.logStop, h.flags, h.dropped, h.readers⟩
      · intro j k c c' hc hc' hcs hcs'
        rcases hcalls j c hc with hc | hout
        · rcases hcalls k c' hc' with hc' | hout
          · exact h.alone j k c c' hc hc' hcs hcs'
          · exact absurd (hout.symm.trans hcs') (by simp)
        · exact absurd (hout.symm.trans hcs) (by simp)
      · intro j c hc
        rcases hcalls j c hc with hc | hout
        · exact (h.call j c hc).congr rfl rfl rfl
        · exact pcSerial_of_outside hout
  | called hpc hcall => exact h.of_stepCall hlife hpc hcall halone
  | readEmpty => exact h
  | read hsource hdup =>
      exact h.same (sameShared_dupReader hdup h.logStop) (calls_dupReader hdup)
  | @finished r y hy =>
      refine h.same ⟨rfl, rfl, rfl, rfl, fun j x hx => .inl ?_⟩ rfl
      rw [List.getElem?_set] at hx
      split at hx
      · split at hx <;> simp at hx
      · exact hx
  | stopped => exact h.raise
  | dropped hidle =>
      have hraise := h.raise
      refine ⟨h.alone, fun j c hc => pcSerial_of_outside ?_, hraise.logStop, hraise.flags,
        fun _ => (getElem_raise s h.logStop _).trans (if_pos rfl), hraise.readers⟩
      have hnot := hidle c (List.mem_of_getElem? hc)
      cases c <;> first | rfl | exact absurd hnot (by simp [FdPc.Borrows])
  | opened hfree => exact h.same ⟨rfl, rfl, rfl, rfl, fun _ _ hx => .inl hx⟩ rfl
  | closed hn => exact h.same ⟨rfl, rfl, rfl, rfl, fun _ _ hx => .inl hx⟩ rfl

/-- **Restarts one after the other.** In every run in which no call gets behind the reply while
another one is there: the consumer tasks too read the log streams they are for; every reader and
consumer task has a stop flag that is set, or the one that `stop`, `rm` and `Drop` will set; and
once the container is dropped all their flags are set. -/
theorem consumers_read_logs (source : Option LogFds) (consumers : Bool)
    (hne : ∀ fds, source = some fds → fds.stdout ≠ fds.stderr) {as : List FdAction}
    (hrun : Runs.run step (init source consumers) as = some s)
    (halone : Runs.StepsMeet step (init source consumers) as Alone) :
    ∀ r x, s.readers[r]? = some (some x) →
      (∃ k, s.table.entry x.fd = some ⟨.log k x.stream, .reader r⟩) ∧
        (x.stop = s.logStop ∨ s.flags[x.stop]? = some true) ∧
        (s.life = .dropped → s.flags[x.stop]? = some true) := by
  have hlife : Runs.Always step (init source consumers) as LifeOk :=
    Runs.always_of_invariant (fun _ _ _ h hs => h.of_step hs) (lifeOk_init source consumers) as
  have hboth : Runs.Always step (init source consumers) as
      fun t => t.Serial ∧ t.LogFdInv fun _ => True := by
    refine Runs.always_of_stepsMeet (fun t a t' hl hp hs hg => ⟨hp.1.of_step hl hs hg, ?_⟩) hlife
      ⟨serial_init source consumers, logFdInv_init source consumers hne⟩ hrun halone
    refine hp.2.of_step (.inr fun pc hpc => ?_) hs
    obtain ⟨i, hi⟩ := List.getElem?_of_mem hpc
    exact (hp.1.call i pc hi).stored
  obtain ⟨hserial, hinv⟩ := hboth.final hrun
  intro r x hx
  have hstop : x.stop ≠ s.logStop → s.flags[x.stop]? = some true :=
    hserial.flags x.stop (hserial.readers r x hx)
  refine ⟨hinv.reader r x hx trivial, ?_, fun hdropped => ?_⟩
  · exact (Classical.em (x.stop = s.logStop)).imp_right hstop
  · by_cases hcurrent : x.stop = s.logStop
    · exact hcurrent ▸ hserial.dropped hdropped
    · exact hstop hcurrent

/-- A restart between the readers of a container with consumers: the numbers 3 and 4 are given
out again, one of them to the rest of the process. -/
def restartedLogs : List FdAction :=
  [.new (some 5), .new (some 6), .read .stdout (some 7), .start,
    .call 0 (.logsReply (some [some 8, some 9])), .call 0 .checkFds, .call 0 .raiseStop,
    .call 0 .renewStop, .call 0 .swapSource, .openOther 3, .call 0 (.spawnStdout (some 4)),
    .call 0 (.spawnStderr none), .finish 2, .drop, .closeOther 3]

/-- The account at a restart and the drop behind it: three consumer tasks are left. -/
theorem logFds_owned_restarted :
    ∃ s, Runs.run step (init (some ⟨3, 4⟩) true) restartedLogs = some s ∧
      s.table.fault = false ∧ s.source = none ∧ s.leaked.card ≤ 0 := by
  have hrun : Runs.run step (init (some ⟨3, 4⟩) true) restartedLogs = some _ := rfl
  have h := logFds_owned (some ⟨3, 4⟩) true (by simp) hrun
  exact ⟨_, rfl, h.1, (h.2.2.2.2.1 rfl).1, h.2.2.2.2.2⟩

/-- The last consumer task of the same run reads the log of the second reply, and is told to
stop. -/
theorem consumers_read_logs_restarted :
    ∃ s x, Runs.run step (init (some ⟨3, 4⟩) true) restartedLogs = some s ∧
      s.readers[3]? = some (some x) ∧ x.consumer = true ∧
      (∃ k, s.table.entry x.fd = some ⟨.log k x.stream, .reader 3⟩) ∧
      s.flags[x.stop]? = some true := by
  have hrun : Runs.run step (init (some ⟨3, 4⟩) true) restartedLogs = some _ := rfl
  have h := consumers_read_logs (some ⟨3, 4⟩) true (by simp) hrun (by decide) 3
    ⟨4, 1, .stdout, true⟩ rfl
  exact ⟨_, _, rfl, rfl, rfl, h.1, h.2.2 rfl⟩

/-- Two restarts that overlap behind the reply: the second one swaps the numbers of the first one
out before that has duplicated them, and the rest of the process gets one of them. -/
def overlappingRefreshes : List FdAction :=
  [.new (some 5), .new (some 6), .start, .start,
    .call 0 (.logsReply (some [some 7, some 8])), .call 0 .checkFds,
    .call 1 (.logsReply (some [some 9, some 10])), .call 1 .checkFds,
    .call 0 .raiseStop, .call 0 .renewStop, .call 0 .swapSource,
    .call 1 .raiseStop, .call 1 .renewStop, .call 1 .swapSource,
    .openOther 7, .call 0 (.spawnStdout (some 11))]

/-- The consumer task that the first restart spawns then reads a foreign file. -/
theorem overlapping_refreshes_read_foreign :
    ∃ s x, Runs.run step (init (some ⟨3, 4⟩) true) overlappingRefreshes = some s ∧
      s.readers[2]? = some (some x) ∧ x.consumer = true ∧
      s.table.entry x.fd = some ⟨.foreign, .reader 2⟩ :=
  ⟨_, ⟨11, 1, .stdout, true⟩, rfl, rfl, rfl, rfl⟩

end LogFdSystem

end ContainerRs
