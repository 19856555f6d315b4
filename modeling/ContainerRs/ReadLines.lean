import ContainerRs.Lib.Checked
import ContainerRs.Line

/-!
# Reading a Stream Line by Line

`read_line_limited` (logs/line.rs) on a buffered reader, called until it answers that the
stream is closed. The reader hands out the stream in nonempty buffers of any size; once they
are used up it is at its end for good. The subtraction from the limit, the slices of the
buffer and the amount consumed are checked: a call that would underflow or leave the buffer
has no result.

## Main results

* `LineState.readLineStepChecked_eq`: within a call no check ever fails.
* `LineState.pendingReads_step`: an iteration changes nothing of the results to come.
* `readLineFrom_spec`: what a call returns and leaves in the reader.
* `readAll_eq_splitReads`: reading to the end splits the stream as a whole.
-/

namespace ContainerRs

open Checked Lines

/-! ### The reader -/

/-- A buffered reader over the rest of a stream: its current buffer, and those that will
follow it. None of them is empty. -/
structure BufReader where
  chunks : List Bytes
  nonempty : ∀ chunk ∈ chunks, chunk ≠ []

namespace BufReader

/-- The rest of the stream. -/
def bytes (r : BufReader) : Bytes := r.chunks.flatten

/-- The current buffer; it is empty only at the end of the stream. -/
def fillBuf (r : BufReader) : Bytes := r.chunks.headD []

/-- Remove `amt` bytes from the front of the current buffer, which must hold as many. -/
def consume (r : BufReader) (amt : ℕ) : Option BufReader :=
  match r with
  | { chunks := [], nonempty } => if amt = 0 then some { chunks := [], nonempty } else none
  | { chunks := chunk :: chunks, nonempty } =>
      have hchunks : ∀ chunk ∈ chunks, chunk ≠ [] := fun chunk hchunk =>
        nonempty chunk (List.mem_cons_of_mem _ hchunk)
      if hlt : amt < chunk.length then
        some
          { chunks := chunk.drop amt :: chunks
            nonempty := fun rest hrest => by
              rcases List.mem_cons.mp hrest with rfl | hrest
              · rw [Ne, List.drop_eq_nil_iff]
                omega
              · exact hchunks rest hrest }
      else if amt = chunk.length then some { chunks, nonempty := hchunks }
      else none

variable {r r' : BufReader} {amt : ℕ}

/-- The current buffer is the front of the stream. -/
theorem bytes_eq_fillBuf_append (r : BufReader) :
    r.bytes = r.fillBuf ++ r.chunks.tail.flatten := by
  obtain ⟨chunks, nonempty⟩ := r
  cases chunks <;> rfl

/-- An empty buffer means that the stream has ended. -/
theorem fillBuf_eq_nil : r.fillBuf = [] ↔ r.bytes = [] := by
  constructor
  · intro h
    obtain ⟨chunks, nonempty⟩ := r
    cases chunks with
    | nil => rfl
    | cons chunk chunks => exact absurd h (nonempty chunk List.mem_cons_self)
  · intro h
    rw [bytes_eq_fillBuf_append] at h
    exact (List.append_eq_nil_iff.mp h).1

/-- Bytes that the current buffer holds can be consumed. The buffer is the first chunk,
and it goes when it is used up. -/
theorem consume_of_le (h : amt ≤ r.fillBuf.length) :
    ∃ r', r.consume amt = some r' ∧ r'.bytes = r.bytes.drop amt := by
  obtain ⟨chunks, nonempty⟩ := r
  cases chunks with
  | nil =>
      obtain rfl : amt = 0 := Nat.le_zero.mp h
      exact ⟨_, rfl, rfl⟩
  | cons chunk chunks =>
      have hle : amt ≤ chunk.length := h
      rw [consume]
      rcases Nat.lt_or_eq_of_le hle with hlt | heq
      · refine ⟨_, dif_pos hlt, ?_⟩
        simp only [bytes, List.flatten_cons, List.drop_append_of_le_length hle]
      · refine ⟨_, (dif_neg (by omega)).trans (if_pos heq), ?_⟩
        simp only [bytes, List.flatten_cons, heq, List.drop_left']

/-- What is left after consuming is the rest of the stream. What is consumed is taken off
the first chunk, which is dropped once it is used up. -/
theorem bytes_consume (h : r.consume amt = some r') : r'.bytes = r.bytes.drop amt := by
  obtain ⟨chunks, nonempty⟩ := r
  cases chunks with
  | nil =>
      rw [consume] at h
      split at h
      · obtain rfl := Option.some.inj h
        simp [bytes]
      · exact absurd h (by simp)
  | cons chunk chunks =>
      rw [consume] at h
      split at h
      · next hlt =>
          obtain rfl := Option.some.inj h
          simp only [bytes, List.flatten_cons, List.drop_append_of_le_length hlt.le]
      · split at h
        · next heq =>
            obtain rfl := Option.some.inj h
            simp only [bytes, List.flatten_cons, heq, List.drop_left']
        · exact absurd h (by simp)

end BufReader

/-! ### The calls -/

namespace LineState

/-- One iteration on a nonempty buffer, with its subtraction and its slices checked. -/
def readLineStepChecked (limit : ℕ) (st : LineState) (buf : Bytes) :
    Option (ℕ × (LineRead ⊕ LineState)) :=
  match st.truncated with
  | some head =>
      match buf.findIdx? fun b => decide (b = newline) with
      | some pos => some (pos + 1, .inl (.truncated head))
      | none => some (buf.length, .inr st)
  | none =>
      match buf.findIdx? fun b => decide (b = newline) with
      | some pos =>
          if st.line.length + pos > limit then
            (checkedSub limit st.line.length).bind fun headLen =>
              (sliceTo buf headLen).map fun front =>
                (pos + 1, .inl (.truncated (st.line ++ front)))
          else
            (sliceTo buf pos).map fun front =>
              (pos + 1, .inl (.line (stripTrailingCr (st.line ++ front))))
      | none =>
          if st.line.length + buf.length > limit then
            (checkedSub limit st.line.length).bind fun headLen =>
              (sliceTo buf headLen).map fun front =>
                (headLen, .inr { line := [], truncated := some (st.line ++ front) })
          else some (buf.length, .inr { st with line := st.line ++ buf })

/-- What an iteration may still take: two for each byte of the stream, and one for the
change from gathering to discarding. -/
def fuel (st : LineState) (r : BufReader) : ℕ :=
  2 * r.bytes.length + if st.truncated.isSome then 0 else 1

variable {limit n : ℕ} {st st' : LineState} {buf : Bytes}

/-- **No check fails**: within a call the line is never over the limit, and no slice ends
behind the buffer. -/
theorem readLineStepChecked_eq (h : st.WellFormed limit) (buf : Bytes) :
    st.readLineStepChecked limit buf = some (st.readLineStep limit buf) := by
  have hle := h.le_limit
  obtain ⟨line, truncated⟩ := st
  simp only at hle
  cases truncated with
  | some head =>
      cases hfind : buf.findIdx? fun b => decide (b = newline) <;>
        simp only [readLineStepChecked, readLineStep, hfind]
  | none =>
      cases hfind : buf.findIdx? fun b => decide (b = newline) with
      | some pos =>
          obtain ⟨hlt, -⟩ := List.findIdx?_eq_some_iff_getElem.mp hfind
          simp only [readLineStepChecked, readLineStep, hfind]
          split
          · rw [checkedSub, if_pos hle, Option.bind_some, sliceTo, if_pos (by omega)]
            rfl
          · rw [sliceTo, if_pos hlt.le]
            rfl
      | none =>
          simp only [readLineStepChecked, readLineStep, hfind]
          split
          · rw [checkedSub, if_pos hle, Option.bind_some, sliceTo, if_pos (by omega)]
            rfl
          · rfl

/-- An iteration consumes no more than the buffer holds. One case for each of the four
ways of the iteration: with a newline in the buffer or without, while gathering or
discarding. -/
theorem readLineStep_le (limit : ℕ) (st : LineState) (buf : Bytes) :
    (st.readLineStep limit buf).1 ≤ buf.length := by
  obtain ⟨line, truncated⟩ := st
  cases hfind : buf.findIdx? fun b => decide (b = newline) with
  | some pos =>
      obtain ⟨hlt, -⟩ := List.findIdx?_eq_some_iff_getElem.mp hfind
      cases truncated with
      | some head =>
          simp only [readLineStep, hfind]
          omega
      | none =>
          simp only [readLineStep, hfind]
          split <;> exact hlt
  | none =>
      cases truncated with
      | some head => simp only [readLineStep, hfind, Nat.le_refl]
      | none =>
          simp only [readLineStep, hfind]
          split
          · omega
          · exact Nat.le_refl _

/-- An iteration that goes on consumes bytes, or starts discarding. The second happens
once at most, since a call that discards does so to its end. -/
theorem readLineStepChecked_goes_on (hbuf : buf ≠ [])
    (h : st.readLineStepChecked limit buf = some (n, .inr st')) :
    n ≤ buf.length ∧ ((0 < n ∧ st'.truncated = st.truncated) ∨
      st.truncated = none ∧ st'.truncated.isSome) := by
  have hpos := List.length_pos_iff.mpr hbuf
  rw [readLineStepChecked] at h
  split at h
  · split at h
    · exact absurd h (by simp)
    · obtain ⟨rfl, rfl⟩ : buf.length = n ∧ st = st' := by simpa using h
      exact ⟨Nat.le_refl _, .inl ⟨hpos, rfl⟩⟩
  · next hnone =>
      split at h
      · split at h
        · obtain ⟨headLen, -, h⟩ := Option.bind_eq_some_iff.mp h
          obtain ⟨front, -, h⟩ := Option.map_eq_some_iff.mp h
          exact absurd h (by simp)
        · obtain ⟨front, -, h⟩ := Option.map_eq_some_iff.mp h
          exact absurd h (by simp)
      · split at h
        · obtain ⟨headLen, -, h⟩ := Option.bind_eq_some_iff.mp h
          obtain ⟨front, hfront, h⟩ := Option.map_eq_some_iff.mp h
          obtain ⟨rfl, rfl⟩ : headLen = n ∧ _ = st' := by simpa using h
          rw [sliceTo] at hfront
          split at hfront
          · exact ⟨‹_›, .inr ⟨hnone, rfl⟩⟩
          · exact absurd hfront (by simp)
        · obtain ⟨rfl, rfl⟩ : buf.length = n ∧ _ = st' := by simpa using h
          exact ⟨Nat.le_refl _, .inl ⟨hpos, rfl⟩⟩

/-- An iteration that goes on leaves less to do. Either bytes have been consumed, or a
line has become too long, which happens once. -/
theorem fuel_lt {r r' : BufReader} (hbuf : r.fillBuf ≠ [])
    (h : st.readLineStepChecked limit r.fillBuf = some (n, .inr st'))
    (hconsume : r.consume n = some r') : st'.fuel r' < st.fuel r := by
  obtain ⟨hle, hgoes⟩ := readLineStepChecked_goes_on hbuf h
  have hbytes : r'.bytes.length = r.bytes.length - n := by
    rw [BufReader.bytes_consume hconsume, List.length_drop]
  have hfit : r.fillBuf.length ≤ r.bytes.length := by
    rw [r.bytes_eq_fillBuf_append, List.length_append]
    omega
  rw [fuel, fuel]
  rcases hgoes with ⟨hpos, heq⟩ | ⟨hnone, hsome⟩
  · rw [heq]
    omega
  · rw [if_pos hsome, hnone]
    simp only [Option.isSome_none, Bool.false_eq_true, if_false]
    omega

end LineState

/-- The loop of a call from the given locals on: its result and the reader it leaves behind;
nothing if a check fails. -/
def readLineFrom (limit : ℕ) (st : LineState) (r : BufReader) : Option (LineRead × BufReader) :=
  if _hbuf : r.fillBuf = [] then some (st.endOfFile, r)
  else
    match _hstep : st.readLineStepChecked limit r.fillBuf with
    | none => none
    | some (n, .inl result) => (r.consume n).map fun r' => (result, r')
    | some (n, .inr st') =>
        match _hconsume : r.consume n with
        | none => none
        | some r' => readLineFrom limit st' r'
termination_by st.fuel r
decreasing_by exact LineState.fuel_lt _hbuf _hstep _hconsume

/-- Read one line. -/
def readLineLimited (limit : ℕ) (r : BufReader) : Option (LineRead × BufReader) :=
  readLineFrom limit LineState.start r

variable {limit : ℕ} {st : LineState}

/-- **The iteration lemma**: on a nonempty buffer no check fails, the call stays within its
limit, and the answer completed is the first of those pending. -/
theorem iteration_spec (h : st.WellFormed limit) {r : BufReader} (hbuf : r.fillBuf ≠ []) :
    ∃ n out r', st.readLineStepChecked limit r.fillBuf = some (n, out) ∧
      r.consume n = some r' ∧ r'.bytes = r.bytes.drop n ∧
      (LineState.outcomeReads out).2.WellFormed limit ∧
      (LineState.outcomeReads out).1 ++
          (LineState.outcomeReads out).2.pendingReads limit r'.bytes =
        st.pendingReads limit r.bytes ∧
      ∀ result, out = .inl result → result ≠ .closed ∧ 0 < n := by
  have hchecked := LineState.readLineStepChecked_eq h r.fillBuf
  have hcut := LineState.readLineStep_consumes limit st hbuf
  have hle := LineState.readLineStep_le limit st r.fillBuf
  obtain ⟨hwell, hreads⟩ := LineState.pendingReads_step h r.fillBuf r.chunks.tail.flatten
  generalize st.readLineStep limit r.fillBuf = step at hchecked hcut hle hwell hreads
  obtain ⟨n, out⟩ := step
  obtain ⟨r', hconsume, hbytes⟩ := BufReader.consume_of_le hle
  refine ⟨n, out, r', hchecked, hconsume, hbytes, hwell, ?_, ?_⟩
  · rw [hbytes, r.bytes_eq_fillBuf_append, List.drop_append_of_le_length hle]
    exact hreads
  · rintro result rfl
    refine ⟨hcut.1, Nat.pos_of_ne_zero ?_⟩
    rintro rfl
    exact absurd hcut.2 (by simp)

/-- A call answers with what is pending first, leaves the rest in the reader, and has
consumed bytes unless there were none. -/
structure CallSpec (limit : ℕ) (st : LineState) (r : BufReader) (result : LineRead)
    (r' : BufReader) : Prop where
  reads : result.reads ++ splitReads limit r'.bytes = st.pendingReads limit r.bytes
  closed : result = .closed → r'.bytes = []
  le : r'.bytes.length ≤ r.bytes.length
  progress : r.bytes ≠ [] → r'.bytes.length < r.bytes.length

/-- **The call lemma**: every call returns, and as specified. By induction along the
iterations of a call: it ends at the end of the stream, with a result, or as the
iterations behind it do. That no index is out of bounds is part of it. -/
theorem readLineFrom_spec (h : st.WellFormed limit) (r : BufReader) :
    ∃ result r', readLineFrom limit st r = some (result, r') ∧
      CallSpec limit st r result r' := by
  fun_induction readLineFrom limit st r with
  | case1 st r hbuf =>
      have hbytes := BufReader.fillBuf_eq_nil.mp hbuf
      refine ⟨_, _, rfl, ?_, fun _ => hbytes, Nat.le_refl _, fun hne => absurd hbytes hne⟩
      rw [hbytes, splitReads_nil, List.append_nil, LineState.pendingReads_endOfFile h]
  | case2 st r hbuf hstep =>
      obtain ⟨n, out, r', hstep', -⟩ := iteration_spec h hbuf
      exact absurd (hstep.symm.trans hstep') (by simp)
  | case3 st r hbuf n result hstep =>
      obtain ⟨n', out, r', hstep', hconsume, hbytes, -, hreads, hresult⟩ := iteration_spec h hbuf
      obtain ⟨rfl, rfl⟩ := Prod.mk.inj (Option.some.inj (hstep.symm.trans hstep'))
      obtain ⟨hopen, hpos⟩ := hresult result rfl
      have hlen : r'.bytes.length = r.bytes.length - n := by rw [hbytes, List.length_drop]
      refine ⟨result, r', by rw [hconsume]; rfl, hreads, fun hclosed => absurd hclosed hopen,
        by omega, ?_⟩
      intro hne
      have := List.length_pos_iff.mpr hne
      omega
  | case4 st r hbuf n st' hstep hnone =>
      obtain ⟨n', out, r', hstep', hconsume, -⟩ := iteration_spec h hbuf
      obtain ⟨rfl, rfl⟩ := Prod.mk.inj (Option.some.inj (hstep.symm.trans hstep'))
      exact absurd (hnone.symm.trans hconsume) (by simp)
  | case5 st r hbuf n st' hstep r₁ hconsume ih =>
      obtain ⟨n', out, r', hstep', hconsume', hbytes, hwell, hreads, -⟩ := iteration_spec h hbuf
      obtain ⟨rfl, rfl⟩ := Prod.mk.inj (Option.some.inj (hstep.symm.trans hstep'))
      obtain rfl := Option.some.inj (hconsume.symm.trans hconsume')
      obtain ⟨result, r₂, hcall, hspec⟩ := ih hwell
      have hlen : r₁.bytes.length = r.bytes.length - n := by rw [hbytes, List.length_drop]
      have hle := hspec.le
      refine ⟨result, r₂, hcall, hspec.reads.trans hreads, hspec.closed, by omega, ?_⟩
      intro hne
      have hpos := List.length_pos_iff.mpr hne
      by_cases hend : r₁.bytes = []
      · rw [hend, List.length_nil] at hle
        omega
      · have := hspec.progress hend
        omega

/-- A call that does not find the stream closed has consumed bytes: at the end of the stream
nothing is pending, and the call could only find it closed. -/
theorem bytes_lt_of_readLineLimited {r r' : BufReader} {result : LineRead}
    (hcall : readLineLimited limit r = some (result, r')) (hopen : result ≠ .closed) :
    r'.bytes.length < r.bytes.length := by
  obtain ⟨result', r'', hcall', hspec⟩ := readLineFrom_spec (LineState.wellFormed_start limit) r
  obtain ⟨rfl, rfl⟩ := Prod.mk.inj (Option.some.inj (hcall.symm.trans hcall'))
  refine hspec.progress ?_
  intro hnil
  have hreads := hspec.reads
  rw [hnil, LineState.pendingReads_start, splitReads_nil] at hreads
  have hempty := (List.append_eq_nil_iff.mp hreads).1
  cases result with
  | closed => exact hopen rfl
  | line | truncated | final => exact absurd hempty (by simp [LineRead.reads])

/-- Read lines until the stream is closed. -/
def readAll (limit : ℕ) (r : BufReader) : Option (List LineRead) :=
  match _hcall : readLineLimited limit r with
  | none => none
  | some (result, r') =>
      if _hopen : result = .closed then some []
      else (readAll limit r').map (result :: ·)
termination_by r.bytes.length
decreasing_by exact bytes_lt_of_readLineLimited _hcall _hopen

/-- **The run lemma**: reading to the end gives the answers for the stream as a whole. By
induction along the calls: each takes off the answer that comes first, until one finds the
stream closed. -/
theorem readAll_eq (limit : ℕ) (r : BufReader) :
    readAll limit r = some (splitReads limit r.bytes) := by
  fun_induction readAll limit r with
  | case1 r hcall =>
      obtain ⟨result, r', hcall', -⟩ := readLineFrom_spec (LineState.wellFormed_start limit) r
      exact absurd (hcall.symm.trans hcall') (by simp)
  | case2 r r' hcall =>
      obtain ⟨result, r'', hcall', hspec⟩ :=
        readLineFrom_spec (LineState.wellFormed_start limit) r
      obtain ⟨rfl, rfl⟩ := Prod.mk.inj (Option.some.inj (hcall.symm.trans hcall'))
      have hreads := hspec.reads
      rw [hspec.closed rfl, splitReads_nil, LineState.pendingReads_start] at hreads
      rw [← hreads]
      rfl
  | case3 r result r' hcall hopen ih =>
      obtain ⟨result', r'', hcall', hspec⟩ :=
        readLineFrom_spec (LineState.wellFormed_start limit) r
      obtain ⟨rfl, rfl⟩ := Prod.mk.inj (Option.some.inj (hcall.symm.trans hcall'))
      have hreads := hspec.reads
      rw [LineState.pendingReads_start] at hreads
      rw [ih, ← hreads]
      cases result with
      | closed => exact absurd rfl hopen
      | line | truncated | final => rfl

/-! ### The iterations of all calls -/

/-- The locals and the reader at the head of each iteration, from the first call on. -/
inductive Iterates (limit : ℕ) (r₀ : BufReader) : LineState → BufReader → Prop
  | start : Iterates limit r₀ LineState.start r₀
  | goesOn {st st' : LineState} {r r' : BufReader} {n : ℕ} : Iterates limit r₀ st r →
      r.fillBuf ≠ [] → st.readLineStepChecked limit r.fillBuf = some (n, .inr st') →
      r.consume n = some r' → Iterates limit r₀ st' r'
  | nextCall {st : LineState} {r r' : BufReader} {n : ℕ} {result : LineRead} :
      Iterates limit r₀ st r → r.fillBuf ≠ [] →
      st.readLineStepChecked limit r.fillBuf = some (n, .inl result) →
      r.consume n = some r' → Iterates limit r₀ LineState.start r'

/-- At the head of every iteration the locals are those of a call within its limit. -/
theorem Iterates.wellFormed {r₀ r : BufReader} (h : Iterates limit r₀ st r) :
    st.WellFormed limit := by
  induction h with
  | start => exact LineState.wellFormed_start limit
  | goesOn _ hbuf hstep _ ih =>
      obtain ⟨n, out, r', hstep', -, -, hwell, -⟩ := iteration_spec ih hbuf
      obtain ⟨rfl, rfl⟩ := Prod.mk.inj (Option.some.inj (hstep.symm.trans hstep'))
      exact hwell
  | nextCall => exact LineState.wellFormed_start limit

/-- **Every stream is split like the whole input**: for every cutting of a stream into
nonempty buffers, the calls up to the one that finds it closed terminate and give exactly
the answers for the stream as a whole; and at the head of each iteration the line is within
the limit and the subtraction, the slices and the amount consumed are in range. -/
theorem readAll_eq_splitReads (limit : ℕ) (r : BufReader) :
    readAll limit r = some (splitReads limit r.bytes) ∧
      ∀ st r', Iterates limit r st r' → st.line.length ≤ limit ∧
        (r'.fillBuf ≠ [] → ∃ n out, st.readLineStepChecked limit r'.fillBuf = some (n, out) ∧
          (r'.consume n).isSome) := by
  refine ⟨readAll_eq limit r, ?_⟩
  intro st r' hiterates
  have hwell := hiterates.wellFormed
  refine ⟨hwell.le_limit, ?_⟩
  intro hbuf
  obtain ⟨n, out, r'', hstep, hconsume, -⟩ := iteration_spec hwell hbuf
  exact ⟨n, out, hstep, by rw [hconsume]; rfl⟩

/-- With a limit of 3: "ab" in front of "\r\n", "abcd", an empty line and an unterminated "x". -/
example : splitReads 3 [97, 98, 13, 10, 97, 98, 99, 100, 10, 10, 120] =
    [.line [97, 98], .truncated [97, 98, 99], .line [], .final [120]] := by decide

end ContainerRs
