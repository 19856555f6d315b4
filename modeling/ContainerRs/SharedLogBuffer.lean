import Mathlib.Data.List.TakeDrop
import Mathlib.Logic.Function.Basic
import ContainerRs.Lib.Bytes
import ContainerRs.Lib.Runs

/-!
# The Shared Log Buffer

`SharedLogBuffer` (docker_log_stream.rs) is a bounded byte queue with the absolute offset
of its first byte. In the follow mode it drops its oldest bytes beyond `limit`; in the
`strict` mode of the one-shot fetch it refuses the bytes that do not fit. Readers keep
their own absolute offset and copy from the buffer without changing it.

The buffer is a window on the stream of all bytes ever appended. `Represents b total`
says which window: the last `min limit total.length` bytes of `total`, with `head` the
position of the first of them. `append` moves the window along the stream and `readAt`
reads the stream through it, so everything about a population of readers follows from
these two facts.

## Main results

* `Represents.append`: the window law of a follow-mode append.
* `Represents.readAt_bytes`, `Represents.readAt_next`: what a read returns, as a piece of
  the stream.
* `sharedLogBuffer_independent_readers`: any interleaving of appends with reads of any
  number of readers.
-/

namespace ContainerRs

/-- The bounded byte queue shared by the readers of one log stream. -/
structure SharedLogBuffer where
  buf : Bytes
  head : ℕ
  limit : ℕ
  strict : Bool
  deriving DecidableEq, Repr

namespace SharedLogBuffer

/-- An empty buffer in the given mode. -/
def withMode (limit : ℕ) (strict : Bool) : SharedLogBuffer :=
  { buf := [], head := 0, limit, strict }

/-- An empty follow-mode buffer (drops its oldest bytes). -/
def new (limit : ℕ) : SharedLogBuffer := withMode limit false

/-- An empty one-shot buffer (refuses what does not fit). -/
def newStrict (limit : ℕ) : SharedLogBuffer := withMode limit true

/-- The eviction loop of `append`: pop from the front, advancing the head, while the
queue is longer than the limit. -/
def popWhileOver (limit : ℕ) : Bytes → ℕ → Bytes × ℕ
  | [], head => ([], head)
  | x :: xs, head =>
      if limit < (x :: xs).length then popWhileOver limit xs (head + 1) else (x :: xs, head)

/-- Append `data`; the flag is `false` when a strict buffer refuses it. Of an oversized chunk only
the last `limit` bytes are kept, and the head does not count the ones cut off from it. -/
def append (b : SharedLogBuffer) (data : Bytes) : SharedLogBuffer × Bool :=
  if data.isEmpty then (b, true)
  else if b.strict then
    if b.limit < data.length || b.limit < b.buf.length + data.length then (b, false)
    else ({ b with buf := b.buf ++ data }, true)
  else
    let keep := if b.limit < data.length then data.drop (data.length - b.limit) else data
    let (buf, head) := popWhileOver b.limit (b.buf ++ keep) b.head
    ({ b with buf, head }, true)

/-- The absolute offset just behind the last byte held. -/
def tail (b : SharedLogBuffer) : ℕ := b.head + b.buf.length

/-- Copy at most `dst` bytes from absolute offset `readerOffset`: the bytes copied, the
next offset, and whether dropped bytes were skipped. -/
def readAt (b : SharedLogBuffer) (readerOffset dst : ℕ) : Bytes × ℕ × Bool :=
  let (offset, skipped) :=
    if readerOffset < b.head then (b.head, true) else (readerOffset, false)
  if b.tail ≤ offset || dst = 0 then ([], offset, skipped)
  else
    let start := offset - b.head
    let n := min (b.buf.length - start) dst
    ((b.buf.drop start).take n, offset + n, skipped)

@[simp] theorem buf_new (limit : ℕ) : (new limit).buf = [] := rfl
@[simp] theorem head_new (limit : ℕ) : (new limit).head = 0 := rfl
@[simp] theorem limit_new (limit : ℕ) : (new limit).limit = limit := rfl
@[simp] theorem strict_new (limit : ℕ) : (new limit).strict = false := rfl

/-! ### The eviction loop -/

/-- The loop drops exactly the bytes in excess of the limit and counts them in the head.
By induction on the buffer, one byte a round. -/
theorem popWhileOver_eq (limit : ℕ) (buf : Bytes) (head : ℕ) :
    popWhileOver limit buf head =
      (buf.drop (buf.length - limit), head + (buf.length - limit)) := by
  induction buf generalizing head with
  | nil => simp [popWhileOver]
  | cons x xs ih =>
      rw [popWhileOver]
      by_cases h : limit < (x :: xs).length
      · have hlen : (x :: xs).length - limit = (xs.length - limit) + 1 := by
          rw [List.length_cons] at h ⊢
          omega
        rw [if_pos h, ih, hlen, List.drop_succ_cons]
        congr 1
        omega
      · have hlen : (x :: xs).length - limit = 0 := by omega
        rw [if_neg h, hlen, List.drop_zero, Nat.add_zero]

/-! ### What an append does -/

/-- Nothing is appended when there is nothing. -/
@[simp] theorem append_nil (b : SharedLogBuffer) : b.append [] = (b, true) := rfl

/-- No append changes the limit or the mode. -/
theorem append_limit_strict (b : SharedLogBuffer) (data : Bytes) :
    (b.append data).1.limit = b.limit ∧ (b.append data).1.strict = b.strict := by
  rw [append]
  split
  · exact ⟨rfl, rfl⟩
  split
  · split <;> exact ⟨rfl, rfl⟩
  · exact ⟨rfl, rfl⟩

/-- An append leaves the limit. -/
@[simp] theorem append_limit (b : SharedLogBuffer) (data : Bytes) :
    (b.append data).1.limit = b.limit := (append_limit_strict b data).1

/-- An append leaves the mode. -/
@[simp] theorem append_strict (b : SharedLogBuffer) (data : Bytes) :
    (b.append data).1.strict = b.strict := (append_limit_strict b data).2

/-- A follow-mode append of a chunk within the limit: extend, then keep the last `limit`
bytes. -/
theorem append_follow {b : SharedLogBuffer} (hb : b.strict = false) {data : Bytes}
    (hne : data ≠ []) (hle : data.length ≤ b.limit) :
    (b.append data).1 =
      { b with
        buf := (b.buf ++ data).drop ((b.buf ++ data).length - b.limit)
        head := b.head + ((b.buf ++ data).length - b.limit) } := by
  have hempty : data.isEmpty = false := by
    rw [List.isEmpty_eq_false_iff]
    exact hne
  rw [append, hempty, hb, if_neg (by decide), if_neg (by decide)]
  simp only [popWhileOver_eq, if_neg (Nat.not_lt.mpr hle)]

/-- In either mode an append that fits simply extends the queue. There is nothing to
refuse and nothing in excess. -/
theorem append_fits {b : SharedLogBuffer} {data : Bytes}
    (hfit : b.buf.length + data.length ≤ b.limit) :
    b.append data = ({ b with buf := b.buf ++ data }, true) := by
  rw [append]
  split
  · next h =>
      rw [List.isEmpty_iff.mp h, List.append_nil]
  split
  · rw [if_neg]
    simp only [Bool.or_eq_true, decide_eq_true_eq]
    omega
  · have hkeep : ¬ b.limit < data.length := by omega
    have hover : (b.buf ++ data).length - b.limit = 0 := by
      rw [List.length_append]
      omega
    simp only [if_neg hkeep, popWhileOver_eq, hover, List.drop_zero, Nat.add_zero]

/-- The tail never moves back. -/
theorem tail_le_tail_append (b : SharedLogBuffer) (data : Bytes) :
    b.tail ≤ (b.append data).1.tail := by
  rw [append]
  split
  · exact le_rfl
  split
  · split
    · exact le_rfl
    · simp only [tail, List.length_append]
      omega
  · simp only [tail, popWhileOver_eq, List.length_drop, List.length_append]
    omega

/-! ### What a read returns -/

/-- A read starts at the reader's offset, or at the head when that has moved past it. One
case for an offset behind the head and one for an offset before it; a read at the tail, or
of nothing, copies nothing. -/
theorem readAt_eq (b : SharedLogBuffer) (offset dst : ℕ) :
    b.readAt offset dst =
      ((b.buf.drop (max offset b.head - b.head)).take dst,
        max offset b.head +
          min dst (b.buf.length - (max offset b.head - b.head)),
        decide (offset < b.head)) := by
  obtain ⟨start, hstart⟩ : ∃ start, start = max offset b.head := ⟨_, rfl⟩
  have hpair : (if offset < b.head then (b.head, true) else (offset, false)) =
      (start, decide (offset < b.head)) := by
    by_cases h : offset < b.head
    · rw [if_pos h, hstart, max_eq_right h.le, decide_eq_true h]
    · rw [if_neg h, hstart, max_eq_left (Nat.not_lt.mp h), decide_eq_false h]
  have hge : b.head ≤ start := hstart ▸ le_max_right _ _
  rw [← hstart, readAt, hpair]
  by_cases h : b.tail ≤ start ∨ dst = 0
  · have hz : min dst (b.buf.length - (start - b.head)) = 0 := by
      rcases h with h | h
      · rw [tail] at h
        omega
      · omega
    have hnil : (b.buf.drop (start - b.head)).take dst = [] := by
      rw [← List.length_eq_zero_iff, List.length_take, List.length_drop, hz]
    simp only [Bool.or_eq_true, decide_eq_true_eq, if_pos h, hz, hnil, Nat.add_zero]
  · simp only [Bool.or_eq_true, decide_eq_true_eq, if_neg h]
    rw [Nat.min_comm, ← List.length_drop, ← List.take_eq_take_min]

/-- A read into a nonempty destination that copies nothing found nothing behind its
offset, and moved the offset to the tail or left it beyond. -/
theorem readAt_empty {b : SharedLogBuffer} {offset dst : ℕ} (hdst : 0 < dst)
    (h : (b.readAt offset dst).1 = []) : b.tail ≤ (b.readAt offset dst).2.1 := by
  rw [readAt_eq] at h ⊢
  rw [List.take_eq_nil_iff, List.drop_eq_nil_iff] at h
  simp only [tail]
  omega

/-! ### The window law -/

/-- `b` is the window on the stream `total` that holds its last `b.limit` bytes. -/
structure Represents (b : SharedLogBuffer) (total : Bytes) : Prop where
  head_eq : b.head = total.length - b.limit
  buf_eq : b.buf = total.drop b.head

/-- A new buffer represents the empty stream. -/
theorem represents_new (limit : ℕ) : (new limit).Represents [] := by
  refine ⟨?_, ?_⟩ <;> simp

section

variable {b : SharedLogBuffer} {total : Bytes}

/-- The head counts bytes that have been appended. -/
theorem Represents.head_le (h : b.Represents total) : b.head ≤ total.length := by
  rw [h.head_eq]
  exact Nat.sub_le _ _

/-- The tail of the buffer is the length of the stream. -/
theorem Represents.tail_eq (h : b.Represents total) : b.tail = total.length := by
  have := h.head_le
  rw [tail, h.buf_eq, List.length_drop]
  omega

/-- The buffer holds everything, or as much as its limit allows. -/
theorem Represents.length_buf (h : b.Represents total) :
    b.buf.length = min b.limit total.length := by
  rw [h.buf_eq, List.length_drop, h.head_eq]
  omega

/-- As long as the stream fits the limit, the buffer holds all of it. -/
theorem Represents.of_fits (h : b.Represents total) (hfit : total.length ≤ b.limit) :
    b.head = 0 ∧ b.buf = total := by
  have hhead : b.head = 0 := by
    rw [h.head_eq]
    omega
  exact ⟨hhead, by rw [h.buf_eq, hhead, List.drop_zero]⟩

/-- **The window law**: appending a chunk within the limit moves the window to the last
`limit` bytes of the longer stream. -/
theorem Represents.append (h : b.Represents total) (hb : b.strict = false) {data : Bytes}
    (hle : data.length ≤ b.limit) : (b.append data).1.Represents (total ++ data) := by
  by_cases hne : data = []
  · rw [hne, List.append_nil]
    exact h
  have hlen : b.buf.length = min b.limit total.length := h.length_buf
  have hover : (b.buf ++ data).length - b.limit =
      (total ++ data).length - b.limit - b.head := by
    simp only [List.length_append, hlen, h.head_eq]
    omega
  have hhead : b.head ≤ (total ++ data).length - b.limit := by
    rw [h.head_eq, List.length_append]
    omega
  rw [append_follow hb hne hle]
  constructor
  · simp only [hover]
    omega
  · simp only [hover]
    rw [← List.drop_drop, List.drop_append_of_le_length h.head_le, h.buf_eq]

/-- What a read copies is the piece of the stream at the place where it starts. -/
theorem Represents.readAt_bytes (h : b.Represents total) (offset dst : ℕ) :
    (b.readAt offset dst).1 = (total.drop (max offset b.head)).take dst := by
  have hge : b.head ≤ max offset b.head := le_max_right _ _
  rw [readAt_eq, h.buf_eq, List.drop_drop, Nat.add_sub_cancel' hge]

/-- The next offset is the place behind the copied bytes. -/
theorem Represents.readAt_next (h : b.Represents total) (offset dst : ℕ) :
    (b.readAt offset dst).2.1 =
      max offset b.head + min dst (total.length - max offset b.head) := by
  have hge : b.head ≤ max offset b.head := le_max_right _ _
  rw [readAt_eq, h.buf_eq, List.length_drop]
  simp only
  omega

end

/-- The skip flag says that the reader's offset lies before the head. -/
theorem readAt_skipped (b : SharedLogBuffer) (offset dst : ℕ) :
    (b.readAt offset dst).2.2 = decide (offset < b.head) := by
  rw [readAt_eq]

end SharedLogBuffer

/-! ### A population of readers -/

/-- One reader: its own absolute offset, and as history every byte it was given, with the
position that the returned offset assigns to it. -/
structure Cursor where
  offset : ℕ
  got : List (UInt8 × ℕ)
  deriving DecidableEq, Repr

/-- The buffer with its readers, and as history the stream of all bytes appended. -/
structure SharedLog where
  buffer : SharedLogBuffer
  total : Bytes
  cursors : ℕ → Cursor

/-- One use of the buffer under its lock. -/
inductive Access
  | append (data : Bytes)
  | read (reader dst : ℕ)
  deriving DecidableEq, Repr

/-- The bytes an access adds to the stream. -/
def Access.data : Access → Bytes
  | append data => data
  | read _ _ => []

namespace SharedLog

/-- A new follow-mode buffer, all readers at offset zero. -/
def start (limit : ℕ) : SharedLog :=
  { buffer := SharedLogBuffer.new limit, total := [], cursors := fun _ => ⟨0, []⟩ }

/-- A reader stores the returned offset and keeps what it was given. -/
def readBy (s : SharedLog) (reader dst : ℕ) : Cursor :=
  let (bytes, next, _) := s.buffer.readAt (s.cursors reader).offset dst
  { offset := next, got := (s.cursors reader).got ++ bytes.zipIdx (next - bytes.length) }

/-- One access; every access is enabled in every state. -/
def step (s : SharedLog) : Access → Option SharedLog
  | .append data =>
      some { s with buffer := (s.buffer.append data).1, total := s.total ++ data }
  | .read reader dst =>
      some { s with cursors := Function.update s.cursors reader (s.readBy reader dst) }

/-- The stream byte at position `p` is no longer held. -/
def Dropped (s : SharedLog) (p : ℕ) : Prop := p + s.buffer.buf.length < s.total.length

/-- How many bytes of the stream lie at or behind the reader's offset. -/
def lag (s : SharedLog) (reader : ℕ) : ℕ := s.total.length - (s.cursors reader).offset

/-- What holds of a single cursor over the stream `total`. -/
structure CursorOk (total : Bytes) (c : Cursor) : Prop where
  offset_le : c.offset ≤ total.length
  ordered : c.got.Pairwise fun x y => x.2 < y.2
  faithful : ∀ x ∈ c.got, x.2 < c.offset ∧ total[x.2]? = some x.1

/-- The invariant of the population: the window law and every cursor. -/
structure Inv (limit : ℕ) (s : SharedLog) : Prop where
  limit_eq : s.buffer.limit = limit
  follow : s.buffer.strict = false
  window : s.buffer.Represents s.total
  cursor : ∀ reader, CursorOk s.total (s.cursors reader)

/-- In the beginning the buffer is empty, and so is what every reader has got. -/
theorem inv_start (limit : ℕ) : Inv limit (start limit) where
  limit_eq := rfl
  follow := rfl
  window := SharedLogBuffer.represents_new limit
  cursor _ := ⟨Nat.zero_le _, List.Pairwise.nil, by simp [start]⟩

/-- A longer stream keeps every cursor in order. -/
theorem CursorOk.append {total : Bytes} {c : Cursor} (h : CursorOk total c) (data : Bytes) :
    CursorOk (total ++ data) c where
  offset_le := by
    rw [List.length_append]
    exact Nat.le_add_right_of_le h.offset_le
  ordered := h.ordered
  faithful x hx := by
    obtain ⟨hlt, hget⟩ := h.faithful x hx
    refine ⟨hlt, ?_⟩
    rw [List.getElem?_append_left (lt_of_lt_of_le hlt h.offset_le)]
    exact hget

section

variable {limit : ℕ} {s : SharedLog}

/-- Under the invariant, the reader's new offset and the bytes it adds are a piece of the
stream that starts at its offset or at the head. -/
theorem Inv.readBy_eq (h : Inv limit s) (reader dst : ℕ) :
    s.readBy reader dst =
      let start := max (s.cursors reader).offset s.buffer.head
      { offset := start + min dst (s.total.length - start)
        got := (s.cursors reader).got ++ ((s.total.drop start).take dst).zipIdx start } := by
  have hbytes := h.window.readAt_bytes (s.cursors reader).offset dst
  have hnext := h.window.readAt_next (s.cursors reader).offset dst
  simp only [readBy, hbytes, hnext, List.length_take, List.length_drop, Nat.add_sub_cancel]

/-- A read keeps the reader's cursor in order. The bytes that are read stand behind those
it has got, and they are those of the whole at their offsets. -/
theorem Inv.readBy_ok (h : Inv limit s) (reader dst : ℕ) :
    CursorOk s.total (s.readBy reader dst) := by
  have hc := h.cursor reader
  rw [h.readBy_eq]
  obtain ⟨start, hstart⟩ :
      ∃ start, start = max (s.cursors reader).offset s.buffer.head := ⟨_, rfl⟩
  have hoff : (s.cursors reader).offset ≤ start := hstart ▸ le_max_left _ _
  have hle : start ≤ s.total.length := hstart ▸ max_le hc.offset_le h.window.head_le
  simp only [← hstart]
  refine ⟨by simp only; omega, ?_, ?_⟩
  · refine List.pairwise_append.mpr ⟨hc.ordered, ?_, ?_⟩
    · refine List.pairwise_map.mp ?_
      rw [List.zipIdx_map_snd]
      exact List.pairwise_lt_range'
    · intro x hx y hy
      have := (hc.faithful x hx).1
      have := List.le_snd_of_mem_zipIdx hy
      omega
  · intro x hx
    rcases List.mem_append.mp hx with hx | hx
    · obtain ⟨hlt, hget⟩ := hc.faithful x hx
      exact ⟨by simp only; omega, hget⟩
    · obtain ⟨hge, hget⟩ := List.mem_zipIdx_iff_le_and_getElem?_sub.mp hx
      have hlt : x.2 - start < ((s.total.drop start).take dst).length :=
        (List.getElem?_eq_some_iff.mp hget).1
      rw [List.length_take, List.length_drop] at hlt
      refine ⟨by simp only; omega, ?_⟩
      rw [List.getElem?_take_of_lt (by omega), List.getElem?_drop,
        Nat.add_sub_cancel' hge] at hget
      exact hget

/-- Every access with a chunk within the limit keeps the invariant. An append changes the
buffer alone, and a read the cursor of its reader. -/
theorem Inv.of_step {a : Access} {s' : SharedLog} (h : Inv limit s)
    (ha : a.data.length ≤ limit) (hs : s.step a = some s') : Inv limit s' := by
  cases a with
  | append data =>
      obtain rfl := Option.some.inj hs
      exact {
        limit_eq := by simp [h.limit_eq]
        follow := by simp [h.follow]
        window := h.window.append h.follow (by rw [h.limit_eq]; exact ha)
        cursor := fun reader => (h.cursor reader).append data }
  | read reader dst =>
      obtain rfl := Option.some.inj hs
      refine ⟨h.limit_eq, h.follow, h.window, ?_⟩
      intro other
      by_cases heq : other = reader
      · subst heq
        simp only [Function.update_self]
        exact h.readBy_ok other dst
      · simp only [Function.update_of_ne heq]
        exact h.cursor other

/-- The invariant holds after every schedule of accesses with chunks within the limit. By
induction on the schedule. -/
theorem Inv.of_run {acts : List Access} {s' : SharedLog} (h : Inv limit s)
    (hacts : ∀ a ∈ acts, a.data.length ≤ limit) (hrun : Runs.run step s acts = some s') :
    Inv limit s' := by
  induction acts generalizing s with
  | nil =>
      obtain rfl := Option.some.inj hrun
      exact h
  | cons a acts ih =>
      obtain ⟨t, ht, hrun'⟩ := Runs.run_cons_eq_some.mp hrun
      exact ih (h.of_step (hacts a (List.mem_cons_self ..)) ht)
        (fun b hb => hacts b (List.mem_cons_of_mem a hb)) hrun'

end

/-- The stream is the concatenation of the appended chunks, in order. By induction on the
accesses, of which only an append adds to it. -/
theorem run_total {s s' : SharedLog} {acts : List Access}
    (hrun : Runs.run step s acts = some s') :
    s'.total = s.total ++ acts.flatMap Access.data := by
  induction acts generalizing s with
  | nil =>
      obtain rfl := Option.some.inj hrun
      simp
  | cons a acts ih =>
      obtain ⟨t, ht, hrun'⟩ := Runs.run_cons_eq_some.mp hrun
      have hone : t.total = s.total ++ a.data := by
        cases a <;> obtain rfl := Option.some.inj ht <;> simp [Access.data]
      rw [ih hrun', hone, List.flatMap_cons, List.append_assoc]

/-- No access moves any reader's offset back. An append moves no reader, and a read moves
its own forward. -/
theorem step_offset_le {s s' : SharedLog} {a : Access} (hs : s.step a = some s')
    (reader : ℕ) : (s.cursors reader).offset ≤ (s'.cursors reader).offset := by
  cases a with
  | append data =>
      obtain rfl := Option.some.inj hs
      exact le_rfl
  | read i dst =>
      obtain rfl := Option.some.inj hs
      by_cases heq : reader = i
      · subst heq
        simp only [Function.update_self, readBy, SharedLogBuffer.readAt_eq]
        omega
      · simp only [Function.update_of_ne heq]
        exact le_rfl

/-- No schedule moves any reader's offset back. -/
theorem run_offset_le {s s' : SharedLog} {acts : List Access}
    (hrun : Runs.run step s acts = some s') (reader : ℕ) :
    (s.cursors reader).offset ≤ (s'.cursors reader).offset := by
  have hstep : ∀ (t : SharedLog) (a : Access) (t' : SharedLog),
      (s.cursors reader).offset ≤ (t.cursors reader).offset →
      t.step a = some t' → (s.cursors reader).offset ≤ (t'.cursors reader).offset :=
    fun t a t' h hs => le_trans h (step_offset_le hs reader)
  exact Runs.invariant_of_run hstep le_rfl hrun

/-- The reader was given the stream up to its offset, each byte once and in order. -/
def GotPrefix (reader : ℕ) (s : SharedLog) : Prop :=
  (s.cursors reader).got = (s.total.take (s.cursors reader).offset).zipIdx

/-- While the reader is at most `limit` bytes behind, nothing behind its offset has been
dropped. -/
theorem Inv.max_offset_head {limit : ℕ} {s : SharedLog} (h : Inv limit s) {reader : ℕ}
    (hlag : s.lag reader ≤ limit) :
    max (s.cursors reader).offset s.buffer.head = (s.cursors reader).offset := by
  have hoff := (h.cursor reader).offset_le
  rw [lag] at hlag
  rw [h.window.head_eq, h.limit_eq]
  omega

/-- An access made while the reader is at most `limit` bytes behind keeps its history a
prefix of the stream. -/
theorem Inv.gotPrefix_step {limit : ℕ} {s s' : SharedLog} {a : Access} (h : Inv limit s)
    {reader : ℕ} (hlag : s.lag reader ≤ limit) (hgot : GotPrefix reader s)
    (hs : s.step a = some s') : GotPrefix reader s' := by
  have hoff := (h.cursor reader).offset_le
  cases a with
  | append data =>
      obtain rfl := Option.some.inj hs
      simp only [GotPrefix] at hgot ⊢
      rw [hgot, List.take_append_of_le_length hoff]
  | read i dst =>
      obtain rfl := Option.some.inj hs
      by_cases heq : reader = i
      · subst heq
        have hstart := h.max_offset_head hlag
        have hbase : (s.total.take (s.cursors reader).offset).length =
            (s.cursors reader).offset := by
          rw [List.length_take, min_eq_left hoff]
        simp only [GotPrefix, Function.update_self, h.readBy_eq, hstart] at hgot ⊢
        rw [hgot, List.take_add, List.zipIdx_append, hbase, Nat.zero_add,
          ← List.length_drop, ← List.take_eq_take_min]
      · simp only [GotPrefix, Function.update_of_ne heq] at hgot ⊢
        exact hgot

/-- A reader that is never more than `limit` bytes behind has been given a prefix of the
stream. -/
theorem gotPrefix_of_lag_le {limit : ℕ} {s s' : SharedLog} {acts : List Access}
    {reader : ℕ} (h : Inv limit s) (hgot : GotPrefix reader s)
    (hacts : ∀ a ∈ acts, a.data.length ≤ limit)
    (hrun : Runs.run step s acts = some s')
    (hlag : Runs.Always step s acts fun t => t.lag reader ≤ limit) :
    GotPrefix reader s' := by
  induction acts generalizing s with
  | nil =>
      obtain rfl := Option.some.inj hrun
      exact hgot
  | cons a acts ih =>
      obtain ⟨t, ht, hrun'⟩ := Runs.run_cons_eq_some.mp hrun
      obtain ⟨hlag₀, hlag'⟩ := (Runs.always_cons ht).mp hlag
      exact ih (h.of_step (hacts a (List.mem_cons_self ..)) ht)
        (h.gotPrefix_step hlag₀ hgot ht)
        (fun b hb => hacts b (List.mem_cons_of_mem a hb)) hrun' hlag'

/-- What the buffer is after a schedule that appended `total`. -/
structure WindowLaw (limit : ℕ) (total : Bytes) (b : SharedLogBuffer) : Prop where
  length_le : b.buf.length ≤ limit
  head_add_length : b.head + b.buf.length = total.length
  buf_eq : b.buf = total.drop (total.length - min limit total.length)

/-- What the next read of a reader at `offset` into a destination of `dst` bytes returns. -/
structure ReadLaw (s : SharedLog) (offset dst : ℕ) : Prop where
  bytes_eq : (s.buffer.readAt offset dst).1 =
    (s.total.drop (max offset s.buffer.head)).take
      (min dst (s.total.length - max offset s.buffer.head))
  length_eq : (s.buffer.readAt offset dst).1.length =
    min dst (s.total.length - max offset s.buffer.head)
  next_eq : (s.buffer.readAt offset dst).2.1 =
    max offset s.buffer.head + (s.buffer.readAt offset dst).1.length
  skipped_iff : (s.buffer.readAt offset dst).2.2 = true ↔ ∃ p, offset ≤ p ∧ s.Dropped p

/-- What a reader has been given so far: stream bytes behind its offset, no position twice
and none out of order. -/
structure DeliveryLaw (total : Bytes) (c : Cursor) : Prop where
  ordered : c.got.Pairwise fun x y => x.2 < y.2
  faithful : ∀ x ∈ c.got, x.2 < c.offset ∧ total[x.2]? = some x.1

/-- **The window**: with the invariant, the buffer holds the last bytes of what has been
appended, and its head counts the others. -/
theorem Inv.windowLaw {limit : ℕ} {s : SharedLog} (h : Inv limit s) :
    WindowLaw limit s.total s.buffer where
  length_le := by
    rw [h.window.length_buf, h.limit_eq]
    exact min_le_left _ _
  head_add_length := h.window.tail_eq
  buf_eq := by
    rw [h.window.buf_eq, h.window.head_eq, h.limit_eq]
    congr 1
    omega

/-- **A read**: with the invariant, it copies what has been appended from its offset on,
or from the head if that is further. -/
theorem Inv.readLaw {limit : ℕ} {s : SharedLog} (h : Inv limit s) (offset dst : ℕ) :
    ReadLaw s offset dst := by
  have hlen : (s.buffer.readAt offset dst).1.length =
      min dst (s.total.length - max offset s.buffer.head) := by
    rw [h.window.readAt_bytes, List.length_take, List.length_drop]
  refine ⟨?_, hlen, ?_, ?_⟩
  · rw [h.window.readAt_bytes, ← List.length_drop, ← List.take_eq_take_min]
  · rw [hlen]
    exact h.window.readAt_next offset dst
  · have htail := h.window.tail_eq
    rw [SharedLogBuffer.tail] at htail
    rw [SharedLogBuffer.readAt_skipped, decide_eq_true_eq]
    constructor
    · intro hlt
      exact ⟨offset, le_rfl, by rw [Dropped]; omega⟩
    · rintro ⟨p, hp, hdrop⟩
      rw [Dropped] at hdrop
      omega

/-- **Independent readers of the ring buffer.** After every schedule of follow-mode appends
of chunks within the limit and reads by any number of readers: the buffer is the last
`limit` bytes of the stream; the next read of any reader returns the stream at the place
its offset or the head demands; every reader's history is stream bytes in order without
repetition, and its offset only grows; and a reader that was never more than `limit` bytes
behind has been given exactly the stream up to its offset, each byte once, and the whole
stream by a read that covers what it still lags. -/
theorem sharedLogBuffer_independent_readers {limit : ℕ} {acts : List Access}
    (hacts : ∀ a ∈ acts, a.data.length ≤ limit) {s : SharedLog}
    (hrun : Runs.run step (start limit) acts = some s) :
    s.total = acts.flatMap Access.data ∧
      WindowLaw limit s.total s.buffer ∧
      (∀ reader dst, ReadLaw s (s.cursors reader).offset dst) ∧
      (∀ reader, DeliveryLaw s.total (s.cursors reader)) ∧
      (∀ reader later t, Runs.run step s later = some t →
        (s.cursors reader).offset ≤ (t.cursors reader).offset) ∧
      ∀ reader, Runs.Always step (start limit) acts (fun t => t.lag reader ≤ limit) →
        (s.cursors reader).got = (s.total.take (s.cursors reader).offset).zipIdx ∧
          ∀ dst, s.lag reader ≤ dst → (s.readBy reader dst).got = s.total.zipIdx := by
  have hinv := (inv_start limit).of_run hacts hrun
  refine ⟨?_, hinv.windowLaw, fun reader dst => hinv.readLaw _ dst, ?_,
    fun reader later t ht => run_offset_le ht reader, ?_⟩
  · rw [run_total hrun]
    rfl
  · intro reader
    exact ⟨(hinv.cursor reader).ordered, (hinv.cursor reader).faithful⟩
  · intro reader hlag
    have hgot : GotPrefix reader s := gotPrefix_of_lag_le (inv_start limit) rfl hacts hrun hlag
    have hnow : s.lag reader ≤ limit := hlag.final hrun
    refine ⟨hgot, ?_⟩
    intro dst hdst
    have hread : s.step (.read reader dst) =
        some { s with cursors := Function.update s.cursors reader (s.readBy reader dst) } := rfl
    have hnext := hinv.gotPrefix_step hnow hgot hread
    have hstart := hinv.max_offset_head hnow
    rw [lag] at hdst
    have hoff := (hinv.cursor reader).offset_le
    have hend : (s.readBy reader dst).offset = s.total.length := by
      simp only [hinv.readBy_eq, hstart]
      omega
    simp only [GotPrefix, Function.update_self, hend, List.take_length] at hnext
    exact hnext

/-- A schedule that evicts: six bytes through a buffer of four, read by one reader in time
and by another after the eviction. -/
def evictingAccesses : List Access :=
  [.append [97, 98, 99, 100], .read 0 2, .append [101, 102], .read 1 8]

/-- The law at the evicting schedule. -/
theorem sharedLogBuffer_independent_readers_evicting :
    ∃ s, Runs.run step (start 4) evictingAccesses = some s ∧
      WindowLaw 4 s.total s.buffer ∧ DeliveryLaw s.total (s.cursors 1) := by
  have hacts : ∀ a ∈ evictingAccesses, a.data.length ≤ 4 := by decide
  obtain ⟨s, hrun⟩ : ∃ s, Runs.run step (start 4) evictingAccesses = some s := ⟨_, rfl⟩
  obtain ⟨-, hwindow, -, hdelivery, -⟩ := sharedLogBuffer_independent_readers hacts hrun
  exact ⟨s, hrun, hwindow, hdelivery 1⟩

end SharedLog

end ContainerRs
