import ContainerRs.Lib.Bytes
import ContainerRs.Lib.Lines

/-!
# Reading Lines with a Length Limit

`read_line_limited` (logs/line.rs) cuts one frame off a buffered reader: it gathers bytes up
to a newline, truncates a line that exceeds the limit and discards its rest, and returns
what it has gathered when the reader is at its end. The line gathered so far and the head of
a truncated line are locals of the call; a call starts with both empty.

`readLineStep` is one iteration of its loop on a nonempty buffer, `endOfFile` what it
returns on an empty one.

## Main results

* `LineState.pendingReads_step`: an iteration moves bytes from the input to the answers and
  changes nothing of the answers still to come; `LineState.pending_step` says so of frames.
* `LineState.pendingReads_endOfFile`, `LineState.pending_endOfFile`: the end of the input
  delivers exactly what is pending.
* `LineState.length_pending_endOfFile`: treating an end as final in the middle of a line,
  when more bytes follow, yields exactly one frame too many.
-/

namespace ContainerRs

open Lines

/-- The newline byte. -/
def newline : UInt8 := 10

/-- The carriage return byte. -/
def carriageReturn : UInt8 := 13

/-- The line length limit of the delivery tasks, in bytes. -/
def maxLineLength : ℕ := 8 * 1024 * 1024

/-- The result of reading one line. -/
inductive LineRead
  | line (bytes : Bytes)
  | truncated (bytes : Bytes)
  | final (bytes : Bytes)
  | closed
  deriving DecidableEq, Repr

/-- The bytes that a result delivers. -/
def LineRead.frames : LineRead → List Bytes
  | .line bytes | .truncated bytes | .final bytes => [bytes]
  | .closed => []

/-- The result itself, unless the stream is closed. -/
def LineRead.reads : LineRead → List LineRead
  | .closed => []
  | result => [result]

/-- Remove one carriage return at the end of a line. -/
def stripTrailingCr (line : Bytes) : Bytes :=
  if line.getLast? = some carriageReturn then line.dropLast else line

/-- The locals of a call of `read_line_limited`: the line gathered so far, and the head of a
line over the limit whose rest is being discarded. -/
structure LineState where
  line : Bytes
  truncated : Option Bytes
  deriving DecidableEq, Repr

namespace LineState

/-- The start of a call. -/
def start : LineState := { line := [], truncated := none }

/-- What the call returns when the reader has nothing more. -/
def endOfFile (st : LineState) : LineRead :=
  match st.truncated with
  | some head => .truncated head
  | none => if st.line = [] then .closed else .final (stripTrailingCr st.line)

/-- One iteration on a nonempty buffer: how many bytes it consumes, and the result of the call or
the locals of its next iteration. Where a line gets too long, what the buffer holds behind its
head stays for the iterations that discard. -/
def readLineStep (limit : ℕ) (st : LineState) (buf : Bytes) : ℕ × (LineRead ⊕ LineState) :=
  match st.truncated with
  | some head =>
      match buf.findIdx? fun b => decide (b = newline) with
      | some pos => (pos + 1, .inl (.truncated head))
      | none => (buf.length, .inr st)
  | none =>
      match buf.findIdx? fun b => decide (b = newline) with
      | some pos =>
          if st.line.length + pos > limit then
            (pos + 1, .inl (.truncated (st.line ++ buf.take (limit - st.line.length))))
          else (pos + 1, .inl (.line (stripTrailingCr (st.line ++ buf.take pos))))
      | none =>
          if st.line.length + buf.length > limit then
            let headLen := limit - st.line.length
            (headLen, .inr { line := [], truncated := some (st.line ++ buf.take headLen) })
          else (buf.length, .inr { st with line := st.line ++ buf })

end LineState

/-! ### The intended frames -/

/-- What the code takes off a line is one carriage return at its end. -/
theorem stripTrailingCr_eq (line : Bytes) : stripTrailingCr line = chomp carriageReturn line := by
  rw [stripTrailingCr]
  split
  · next hlast =>
      obtain ⟨front, rfl⟩ := List.getLast?_eq_some_iff.mp hlast
      rw [chomp_concat, List.dropLast_concat]
  · next hlast =>
      rw [chomp_of_not_suffix]
      rintro ⟨front, rfl⟩
      exact hlast List.getLast?_concat

/-- The frame of a complete line: its first `limit` bytes if it is longer, else the line
without a carriage return at its end. -/
def frameOf (limit : ℕ) (line : Bytes) : Bytes :=
  if limit < line.length then line.take limit else chomp carriageReturn line

/-- The frames of a complete log: one for every line, and one for a nonempty unterminated
rest. -/
def splitLog (limit : ℕ) (log : Bytes) : List Bytes := (lines newline log).map (frameOf limit)

@[simp] theorem splitLog_nil (limit : ℕ) : splitLog limit [] = [] := rfl

/-- How a whole line is answered: over the limit by its first `limit` bytes, else by `short`
without a carriage return at its end. -/
def lineReadOf (limit : ℕ) (short : Bytes → LineRead) (line : Bytes) : LineRead :=
  if limit < line.length then .truncated (line.take limit)
  else short (chomp carriageReturn line)

/-- How a whole stream is answered: each line in front of a newline, and a nonempty rest. -/
def splitReads (limit : ℕ) (stream : Bytes) : List LineRead :=
  let parts := stream.splitOn newline
  let tail := parts.getLastD []
  parts.dropLast.map (lineReadOf limit .line) ++
    if tail = [] then [] else [lineReadOf limit .final tail]

@[simp] theorem splitReads_nil (limit : ℕ) : splitReads limit [] = [] := rfl

/-- A line that ends in a newline is answered first. -/
theorem splitReads_append_newline {limit : ℕ} {xs : Bytes} (h : newline ∉ xs) (ys : Bytes) :
    splitReads limit (xs ++ newline :: ys) =
      lineReadOf limit .line xs :: splitReads limit ys := by
  have hne := List.splitOn_ne_nil newline ys
  rw [splitReads, splitReads, List.splitOn_append_cons_self_of_not_mem h,
    List.dropLast_cons_of_ne_nil hne, List.map_cons, List.cons_append]
  obtain ⟨part, parts, hparts⟩ := List.exists_cons_of_ne_nil hne
  rw [hparts]
  rfl

/-- A stream without a newline is an unterminated line. -/
theorem splitReads_of_notMem {limit : ℕ} {xs : Bytes} (h : newline ∉ xs) (hne : xs ≠ []) :
    splitReads limit xs = [lineReadOf limit .final xs] := by
  rw [splitReads, List.splitOn_eq_singleton h]
  exact if_neg hne

/-- A line that is already over the limit is truncated, whatever follows. The rest of the
line only makes it longer, whether or not there is a newline. -/
theorem splitReads_append_of_limit_lt {limit : ℕ} {xs : Bytes} (h : newline ∉ xs)
    (hlong : limit < xs.length) (rest : Bytes) :
    splitReads limit (xs ++ rest) =
      .truncated (xs.take limit) :: splitReads limit (afterLine newline rest) := by
  have hanswer : ∀ (short : Bytes → LineRead) (more : Bytes),
      lineReadOf limit short (xs ++ more) = .truncated (xs.take limit) := by
    intro short more
    have hlen : limit < (xs ++ more).length := by
      rw [List.length_append]
      omega
    rw [lineReadOf, if_pos hlen, List.take_append_of_le_length hlong.le]
  by_cases hmem : newline ∈ rest
  · obtain ⟨more, rest, rfl, hmore⟩ := List.eq_append_cons_of_mem hmem
    have hno : newline ∉ xs ++ more := by simp [h, hmore]
    rw [← List.append_assoc, splitReads_append_newline hno, hanswer,
      afterLine_append_of_notMem hmore, afterLine_newline]
  · have hno : newline ∉ xs ++ rest := by simp [h, hmem]
    have hne : xs ++ rest ≠ [] := List.ne_nil_of_length_pos (by rw [List.length_append]; omega)
    have hafter : afterLine newline rest = [] := by
      rw [← List.append_nil rest, afterLine_append_of_notMem hmem, afterLine_nil]
    rw [splitReads_of_notMem hno hne, hanswer, hafter, splitReads_nil]

/-- The frame of a whole line is the same however it ends. -/
theorem frames_lineReadOf {limit : ℕ} {short : Bytes → LineRead}
    (hshort : ∀ line, (short line).frames = [line]) (line : Bytes) :
    (lineReadOf limit short line).frames = [frameOf limit line] := by
  rw [lineReadOf, frameOf]
  split
  · rfl
  · exact hshort _

/-- The frames of a log are those of its answers. By strong induction on the length: the
first line is taken off with its newline, or it is all that is left. -/
theorem splitLog_eq_flatMap (limit : ℕ) (log : Bytes) :
    splitLog limit log = (splitReads limit log).flatMap LineRead.frames := by
  induction hlen : log.length using Nat.strongRecOn generalizing log with
  | ind n ih =>
      by_cases hmem : newline ∈ log
      · obtain ⟨line, rest, rfl, hline⟩ := List.eq_append_cons_of_mem hmem
        have hrest : rest.length < n := by
          rw [List.length_append, List.length_cons] at hlen
          omega
        rw [splitReads_append_newline hline, List.flatMap_cons, ← ih _ hrest rest rfl,
          frames_lineReadOf fun _ => rfl, splitLog, lines_append_newline hline, List.map_cons,
          splitLog, List.singleton_append]
      · by_cases hnil : log = []
        · rw [hnil]
          rfl
        · rw [splitReads_of_notMem hmem hnil, List.flatMap_singleton,
            frames_lineReadOf fun _ => rfl, splitLog, lines_of_notMem hmem hnil,
            List.map_singleton]

/-- A buffer splits at its first newline. The index is that of the first byte that is
one. -/
theorem findIdx?_newline {buf : Bytes} {pos : ℕ}
    (h : (buf.findIdx? fun b => decide (b = newline)) = some pos) :
    newline ∉ buf.take pos ∧ buf = buf.take pos ++ newline :: buf.drop (pos + 1) := by
  obtain ⟨hlt, hpos, hbefore⟩ := List.findIdx?_eq_some_iff_getElem.mp h
  constructor
  · intro hmem
    obtain ⟨j, hj, heq⟩ := List.mem_iff_getElem.mp hmem
    rw [List.length_take] at hj
    rw [List.getElem_take] at heq
    exact hbefore j (by omega) (decide_eq_true heq)
  · have hget : buf[pos] = newline := of_decide_eq_true hpos
    rw [← hget, List.cons_getElem_drop_succ, List.take_append_drop]

/-- No newline in a buffer without an index of one. -/
theorem findIdx?_no_newline {buf : Bytes}
    (h : (buf.findIdx? fun b => decide (b = newline)) = none) : newline ∉ buf :=
  fun hmem => by simpa using List.findIdx?_eq_none_iff.mp h newline hmem

namespace LineState

/-- The locals are those of a call: the gathered line is free of newlines and within the
limit. -/
structure WellFormed (limit : ℕ) (st : LineState) : Prop where
  noNewline : newline ∉ st.line
  le_limit : st.line.length ≤ limit

/-- A call that starts has gathered nothing. -/
theorem wellFormed_start (limit : ℕ) : start.WellFormed limit :=
  ⟨List.not_mem_nil, Nat.zero_le _⟩

/-- The frames that the current call and the later ones deliver if `rest` is all that is
still to be read. -/
def pending (limit : ℕ) (st : LineState) (rest : Bytes) : List Bytes :=
  match st.truncated with
  | some head => head :: splitLog limit (afterLine newline rest)
  | none => splitLog limit (st.line ++ rest)

/-- At the start of a call all that is pending is the rest of the log. -/
@[simp] theorem pending_start (limit : ℕ) (rest : Bytes) :
    start.pending limit rest = splitLog limit rest := rfl

/-- While a line is gathered, what has been gathered is in front of the rest. -/
@[simp] theorem pending_gathering (limit : ℕ) (line rest : Bytes) :
    (LineState.mk line none).pending limit rest = splitLog limit (line ++ rest) := rfl

/-- While a line is discarded, its head is delivered, and then what is behind the line. -/
@[simp] theorem pending_discarding (limit : ℕ) (line head rest : Bytes) :
    (LineState.mk line (some head)).pending limit rest =
      head :: splitLog limit (afterLine newline rest) := rfl

/-- The frames delivered by one iteration, and the locals of the iteration after it. -/
def outcome : LineRead ⊕ LineState → List Bytes × LineState
  | .inl result => (result.frames, start)
  | .inr st => ([], st)

/-- The answers that the current call and the later ones give if `rest` is all that is still
to be read. -/
def pendingReads (limit : ℕ) (st : LineState) (rest : Bytes) : List LineRead :=
  match st.truncated with
  | some head => .truncated head :: splitReads limit (afterLine newline rest)
  | none => splitReads limit (st.line ++ rest)

/-- The same of the results: at the start of a call they are those of the rest. -/
@[simp] theorem pendingReads_start (limit : ℕ) (rest : Bytes) :
    start.pendingReads limit rest = splitReads limit rest := rfl

/-- While a line is gathered, the results are those of it with the rest. -/
@[simp] theorem pendingReads_gathering (limit : ℕ) (line rest : Bytes) :
    (LineState.mk line none).pendingReads limit rest = splitReads limit (line ++ rest) := rfl

/-- While a line is discarded, its head is the next result, reported as truncated. -/
@[simp] theorem pendingReads_discarding (limit : ℕ) (line head rest : Bytes) :
    (LineState.mk line (some head)).pendingReads limit rest =
      .truncated head :: splitReads limit (afterLine newline rest) := rfl

/-- The pending frames are those of the pending answers. -/
theorem pending_eq_flatMap (limit : ℕ) (st : LineState) (rest : Bytes) :
    st.pending limit rest = (st.pendingReads limit rest).flatMap LineRead.frames := by
  obtain ⟨line, truncated⟩ := st
  cases truncated with
  | some head =>
      rw [pending_discarding, pendingReads_discarding, splitLog_eq_flatMap, List.flatMap_cons]
      rfl
  | none => rw [pending_gathering, pendingReads_gathering, splitLog_eq_flatMap]

/-- The answer given by one iteration, and the locals of the iteration after it. -/
def outcomeReads : LineRead ⊕ LineState → List LineRead × LineState
  | .inl result => (result.reads, start)
  | .inr st => ([], st)

/-- **The step lemma**: an iteration consumes a part of the buffer, gives the answer which that
part completes and leaves the rest pending. A line that gets too long is cut off at its head here,
and its rest is discarded later. -/
theorem pendingReads_step {limit : ℕ} {st : LineState} (h : st.WellFormed limit)
    (buf rest : Bytes) :
    (outcomeReads (st.readLineStep limit buf).2).2.WellFormed limit ∧
      (outcomeReads (st.readLineStep limit buf).2).1 ++
          (outcomeReads (st.readLineStep limit buf).2).2.pendingReads limit
            (buf.drop (st.readLineStep limit buf).1 ++ rest) =
        st.pendingReads limit (buf ++ rest) := by
  obtain ⟨line, truncated⟩ := st
  obtain ⟨hno, hle⟩ := h
  simp only at hno hle
  cases truncated with
  | some head =>
      cases hfind : buf.findIdx? fun b => decide (b = newline) with
      | some pos =>
          obtain ⟨hbefore, hsplit⟩ := findIdx?_newline hfind
          simp only [readLineStep, hfind, outcomeReads, LineRead.reads, pendingReads_start,
            pendingReads_discarding]
          refine ⟨wellFormed_start limit, ?_⟩
          have hafter : afterLine newline (buf ++ rest) = buf.drop (pos + 1) ++ rest := by
            conv_lhs => rw [hsplit]
            rw [List.append_assoc, afterLine_append_of_notMem hbefore, List.cons_append,
              afterLine_newline]
          rw [hafter, List.singleton_append]
      | none =>
          simp only [readLineStep, hfind, outcomeReads, pendingReads_discarding, List.nil_append,
            List.drop_length]
          refine ⟨⟨hno, hle⟩, ?_⟩
          rw [afterLine_append_of_notMem (findIdx?_no_newline hfind)]
  | none =>
      cases hfind : buf.findIdx? fun b => decide (b = newline) with
      | some pos =>
          obtain ⟨hbefore, hsplit⟩ := findIdx?_newline hfind
          have hno' : newline ∉ line ++ buf.take pos := by simp [hno, hbefore]
          have hpos : (buf.take pos).length = pos := by
            obtain ⟨hlt, -⟩ := List.findIdx?_eq_some_iff_getElem.mp hfind
            rw [List.length_take]
            omega
          have hlen : (line ++ buf.take pos).length = line.length + pos := by
            rw [List.length_append, hpos]
          have hwhole : splitReads limit (line ++ (buf ++ rest)) =
              lineReadOf limit .line (line ++ buf.take pos) ::
                splitReads limit (buf.drop (pos + 1) ++ rest) := by
            conv_lhs => rw [hsplit]
            rw [List.append_assoc, List.cons_append, ← List.append_assoc,
              splitReads_append_newline hno']
          simp only [readLineStep, hfind]
          split
          · next hover =>
              simp only [outcomeReads, LineRead.reads, pendingReads_start, pendingReads_gathering,
                hwhole]
              refine ⟨wellFormed_start limit, ?_⟩
              rw [lineReadOf, if_pos (by omega), List.take_append, List.take_of_length_le hle,
                List.take_take, Nat.min_eq_left (by omega), List.singleton_append]
          · next hover =>
              simp only [outcomeReads, LineRead.reads, pendingReads_start, pendingReads_gathering,
                hwhole]
              refine ⟨wellFormed_start limit, ?_⟩
              rw [lineReadOf, if_neg (by omega), stripTrailingCr_eq, List.singleton_append]
      | none =>
          have hbuf := findIdx?_no_newline hfind
          have hno' : newline ∉ line ++ buf := by simp [hno, hbuf]
          simp only [readLineStep, hfind]
          split
          · next hover =>
              simp only [outcomeReads, pendingReads_gathering, pendingReads_discarding,
                List.nil_append]
              refine ⟨⟨List.not_mem_nil, Nat.zero_le _⟩, ?_⟩
              have hlong : limit < (line ++ buf).length := by
                rw [List.length_append]
                omega
              have hdrop : newline ∉ buf.drop (limit - line.length) :=
                fun hmem => hbuf (List.mem_of_mem_drop hmem)
              rw [← List.append_assoc, splitReads_append_of_limit_lt hno' hlong,
                afterLine_append_of_notMem hdrop, List.take_append, List.take_of_length_le hle]
          · next hover =>
              simp only [outcomeReads, pendingReads_gathering, List.nil_append, List.drop_length]
              refine ⟨⟨hno', ?_⟩, by rw [List.append_assoc]⟩
              rw [List.length_append]
              omega

/-- The frames of an iteration are those of its answer. -/
theorem outcome_eq (result : LineRead ⊕ LineState) :
    outcome result =
      ((outcomeReads result).1.flatMap LineRead.frames, (outcomeReads result).2) := by
  cases result with
  | inl result => cases result <;> rfl
  | inr st => rfl

/-- An iteration delivers the frames that its part of the buffer completes and leaves the
rest pending. -/
theorem pending_step {limit : ℕ} {st : LineState} (h : st.WellFormed limit) (buf rest : Bytes) :
    (outcome (st.readLineStep limit buf).2).2.WellFormed limit ∧
      (outcome (st.readLineStep limit buf).2).1 ++
          (outcome (st.readLineStep limit buf).2).2.pending limit
            (buf.drop (st.readLineStep limit buf).1 ++ rest) =
        st.pending limit (buf ++ rest) := by
  obtain ⟨hwell, hreads⟩ := pendingReads_step h buf rest
  rw [outcome_eq]
  refine ⟨hwell, ?_⟩
  rw [pending_eq_flatMap, pending_eq_flatMap, ← hreads, List.flatMap_append]

/-- The call is in the middle of a line. -/
def MidLine (st : LineState) : Prop := st.line ≠ [] ∨ st.truncated.isSome

/-- At the start of a line nothing is gathered. -/
theorem eq_start_of_not_midLine {st : LineState} (h : ¬ st.MidLine) : st = start := by
  obtain ⟨line, truncated⟩ := st
  rw [MidLine, not_or, not_not, Option.not_isSome_iff_eq_none] at h
  obtain ⟨rfl, rfl⟩ := h
  rfl

/-- What an iteration consumes of a nonempty buffer: up to a newline if the call returns;
else the whole buffer, which has no newline, unless a part of it stays to be discarded. -/
theorem readLineStep_consumes (limit : ℕ) (st : LineState) {buf : Bytes} (hbuf : buf ≠ []) :
    match (st.readLineStep limit buf).2 with
    | .inl result => result ≠ .closed ∧
        (buf.take (st.readLineStep limit buf).1).getLast? = some newline
    | .inr st' => st'.MidLine ∧ newline ∉ buf ∧
        (buf.take (st.readLineStep limit buf).1 = buf ∨
          st'.truncated.isSome ∧ buf.drop (st.readLineStep limit buf).1 ≠ []) := by
  have hnewline : ∀ {pos : ℕ}, (buf.findIdx? fun b => decide (b = newline)) = some pos →
      (buf.take (pos + 1)).getLast? = some newline := by
    intro pos hfind
    obtain ⟨hlt, hpos, -⟩ := List.findIdx?_eq_some_iff_getElem.mp hfind
    rw [List.take_succ_eq_append_getElem hlt, List.getLast?_concat, of_decide_eq_true hpos]
  obtain ⟨line, truncated⟩ := st
  cases truncated with
  | some head =>
      cases hfind : buf.findIdx? fun b => decide (b = newline) with
      | some pos =>
          simp only [readLineStep, hfind]
          exact ⟨by simp, hnewline hfind⟩
      | none =>
          simp only [readLineStep, hfind, List.take_length]
          exact ⟨.inr rfl, findIdx?_no_newline hfind, .inl trivial⟩
  | none =>
      cases hfind : buf.findIdx? fun b => decide (b = newline) with
      | some pos =>
          by_cases hover : line.length + pos > limit
          · simp only [readLineStep, hfind, if_pos hover]
            exact ⟨by simp, hnewline hfind⟩
          · simp only [readLineStep, hfind, if_neg hover]
            exact ⟨by simp, hnewline hfind⟩
      | none =>
          have hno := findIdx?_no_newline hfind
          by_cases hover : line.length + buf.length > limit
          · simp only [readLineStep, hfind, if_pos hover]
            refine ⟨.inr rfl, hno, .inr ⟨rfl, ?_⟩⟩
            intro hnil
            have := List.drop_eq_nil_iff.mp hnil
            have := List.length_pos_iff.mpr hbuf
            omega
          · simp only [readLineStep, hfind, if_neg hover, List.take_length]
            exact ⟨.inl (by simp [hbuf]), hno, .inl trivial⟩

/-- A call that meets the end of the input answers with what is pending. -/
theorem pendingReads_endOfFile {limit : ℕ} {st : LineState} (h : st.WellFormed limit) :
    st.endOfFile.reads = st.pendingReads limit [] := by
  obtain ⟨line, truncated⟩ := st
  obtain ⟨hno, hle⟩ := h
  simp only at hno hle
  cases truncated with
  | some head => rfl
  | none =>
      by_cases hline : line = []
      · simp [endOfFile, LineRead.reads, hline]
      · simp only [endOfFile, if_neg hline, LineRead.reads, pendingReads_gathering,
          List.append_nil, splitReads_of_notMem hno hline, lineReadOf,
          if_neg (Nat.not_lt.mpr hle), stripTrailingCr_eq]

/-- The frames of an answer are those of the one it is made of. -/
theorem flatMap_frames_reads (result : LineRead) :
    result.reads.flatMap LineRead.frames = result.frames := by
  cases result <;> rfl

/-- A call that meets the end of the input delivers what is pending. -/
theorem pending_endOfFile {limit : ℕ} {st : LineState} (h : st.WellFormed limit) :
    st.endOfFile.frames = st.pending limit [] := by
  rw [pending_eq_flatMap, ← pendingReads_endOfFile h, flatMap_frames_reads]

/-- **A premature end**: a call that takes an end for final in the middle of a line, while
`rest` is still to come, makes one frame more than the complete log has. -/
theorem length_pending_endOfFile {limit : ℕ} {st : LineState} (h : st.WellFormed limit)
    (hmid : st.MidLine) {rest : Bytes} (hrest : rest ≠ []) :
    (st.endOfFile.frames ++ splitLog limit rest).length = (st.pending limit rest).length + 1 := by
  obtain ⟨line, truncated⟩ := st
  cases truncated with
  | some head =>
      have hcons : (splitLog limit rest).length =
          (splitLog limit (afterLine newline rest)).length + 1 := by
        simp only [splitLog, List.length_map, lines_eq_cons hrest, List.length_cons]
      simp only [endOfFile, LineRead.frames, pending, List.length_append, List.length_cons,
        List.length_nil, hcons]
      omega
  | none =>
      have hline : line ≠ [] := by simpa [MidLine] using hmid
      simp only [endOfFile, if_neg hline, LineRead.frames, pending, splitLog, List.length_append,
        List.length_map, length_lines_append h.noNewline hrest, List.length_cons,
        List.length_nil]
      omega

end LineState

end ContainerRs
