import ContainerRs.Lib.Bytes
import ContainerRs.Lib.Checked
import Mathlib.Data.List.Infix

/-!
# Incremental Decoders of HTTP Responses

A decoder is handed the bytes of a connection as they arrive and gives out the heads of the
responses and the bytes of their bodies. `ResponseDecoder` is what such a decoder offers;
`Wire` says what received bytes hold, whoever reads them, and `Sound` says that a decoder
gives out what the bytes hold: heads in order, the body in pieces that are not empty, the end
of a body exactly where its framing ends, and an error only for bytes that are not acceptable
or bodies above its limit.

How a body is framed decides when it ends: at a length, at the last chunk, or at the end of
the connection, which is the only framing that the end of the connection completes.

## Main results

* `drain_spec`: the loop that takes out all that has arrived of a body, whatever is done with
  its pieces.
* `Wire.sound_reference`: a decoder that follows the wire is sound, so that there is one.
-/

namespace Http

open Checked

/-! ### Decoders -/

/-- How a body is framed. -/
inductive BodyKind
  | contentLength (length : ℕ)
  | chunked
  | closeDelimited
  | none
  | tunnel
  | other
  deriving DecidableEq, Repr

namespace BodyKind

/-- The framings that say by themselves where the body ends. -/
def SelfDelimited : BodyKind → Prop
  | contentLength _ | chunked => True
  | _ => False

/-- The framings of a response that is no tunnel. -/
def Framed : BodyKind → Prop
  | tunnel | other => False
  | _ => True

instance (kind : BodyKind) : Decidable kind.SelfDelimited := by
  cases kind <;> unfold SelfDelimited <;> infer_instance

instance (kind : BodyKind) : Decidable kind.Framed := by
  cases kind <;> unfold Framed <;> infer_instance

end BodyKind

/-- What a decoder says about the body after a step. -/
inductive BodyProgress
  | complete
  | advanced
  | needData
  deriving DecidableEq, Repr

/-- The head of a response. -/
structure ResponseHead where
  statusCode : ℕ
  headers : List (List Char × List Char)
  deriving DecidableEq, Repr

/-- What a decoder offers, and its limit on a body where it is given none. The numbers of pending
heads and bytes say how much it can give out before it needs more bytes. -/
structure ResponseDecoder (δ : Type) where
  defaultMaxBodySize : ℕ
  withLimits : ℕ → δ
  setRequestMethod : δ → List Char → δ
  availableBuf : δ → ℕ
  advanceBuf : δ → Bytes → δ
  markEof : δ → δ
  decodeHeaders : δ → Except String (Option (ResponseHead × BodyKind) × δ)
  peekBody : δ → Option Bytes
  consumeBody : δ → ℕ → Except String (BodyProgress × δ)
  progress : δ → Except String (BodyProgress × δ)
  pendingHeads : δ → ℕ
  pendingBody : δ → ℕ
  pendingHeads_setRequestMethod : ∀ d method,
    pendingHeads (setRequestMethod d method) ≤ pendingHeads d
  decodeHeaders_lt : ∀ {d d' head}, decodeHeaders d = .ok (some head, d') →
    pendingHeads d' < pendingHeads d
  consumeBody_lt : ∀ {d d' data progress}, peekBody d = some data →
    consumeBody d data.length = .ok (progress, d') → pendingBody d' < pendingBody d
  progress_lt : ∀ {d d'}, progress d = .ok (.advanced, d') → pendingBody d' < pendingBody d

/-! ### What received bytes hold -/

/-- What the bytes of a connection hold: the heads of the responses, the body of each one as
far as it has arrived, whether its framing is complete, and whether a decoder accepts the
bytes at all. More bytes only add to that. Lengths are 64-bit numbers. -/
structure Wire where
  heads : Bytes → List (ResponseHead × BodyKind)
  body : ℕ → Bytes → Bytes
  complete : ℕ → Bytes → Prop
  acceptable : Bytes → Prop
  heads_mono : ∀ {front received : Bytes}, front <+: received → heads front <+: heads received
  body_mono : ∀ {front received : Bytes} {i : ℕ}, front <+: received →
    body i front <+: body i received
  complete_mono : ∀ {front received : Bytes} {i : ℕ}, front <+: received → complete i front →
    complete i received
  body_of_complete : ∀ {front received : Bytes} {i : ℕ}, front <+: received → complete i front →
    body i received = body i front
  acceptable_mono : ∀ {front received : Bytes}, front <+: received → acceptable received →
    acceptable front
  body_of_none : ∀ {received : Bytes} {i : ℕ} {head : ResponseHead},
    (heads received)[i]? = some (head, .none) →
    body i received = []
  length_of_complete : ∀ {received : Bytes} {i n : ℕ} {head : ResponseHead},
    (heads received)[i]? = some (head, .contentLength n) → complete i received →
      (body i received).length = n
  contentLength_le : ∀ {received : Bytes} {i n : ℕ} {head : ResponseHead},
    acceptable received → (heads received)[i]? = some (head, .contentLength n) → n ≤ u64Max
  length_body_le : ∀ {received : Bytes} {i : ℕ}, acceptable received →
    (body i received).length ≤ u64Max

/-- How far a connection has been read: the bytes that have arrived, the heads that have been
taken, and the bytes of the last one's body that have been consumed. -/
structure Cursor where
  maxBodySize : ℕ
  method : Option (List Char)
  received : Bytes
  eof : Bool
  taken : ℕ
  consumed : ℕ

namespace Cursor

/-- A connection of which nothing has arrived. -/
def start (maxBodySize : ℕ) : Cursor := ⟨maxBodySize, .none, [], false, 0, 0⟩

/-- More bytes have arrived. -/
def receive (c : Cursor) (bytes : Bytes) : Cursor := { c with received := c.received ++ bytes }

/-- A head has been taken; behind a response without a body the method is to be set again. -/
def take (c : Cursor) (kind : BodyKind) : Cursor :=
  { c with
    taken := c.taken + 1
    consumed := 0
    method := if kind = .none then .none else c.method }

/-- Bytes of the body have been consumed. -/
def consume (c : Cursor) (n : ℕ) : Cursor := { c with consumed := c.consumed + n }

end Cursor

namespace Wire

variable (w : Wire)

variable {w} in
/-- A head stays where it is when more bytes arrive. -/
theorem head_mono {front received : Bytes} {i : ℕ} {head : ResponseHead × BodyKind}
    (hfront : front <+: received) (h : (w.heads front)[i]? = some head) :
    (w.heads received)[i]? = some head := by
  obtain ⟨back, hback⟩ := w.heads_mono hfront
  obtain ⟨hlt, -⟩ := List.getElem?_eq_some_iff.mp h
  rw [← hback, List.getElem?_append_left hlt, h]

variable {w} in
/-- A body that is complete at a front, or that the end of the connection ends there, is the
same later. -/
theorem body_of_front {front received : Bytes} {i : ℕ} {head : ResponseHead} {kind : BodyKind}
    (hfront : front <+: received) (hhead : (w.heads front)[i]? = some (head, kind))
    (hframed : kind.Framed) (hcomplete : kind.SelfDelimited → w.complete i front)
    (hclose : kind = .closeDelimited → front = received) :
    w.body i received = w.body i front := by
  cases kind with
  | contentLength n => exact w.body_of_complete hfront (hcomplete trivial)
  | chunked => exact w.body_of_complete hfront (hcomplete trivial)
  | closeDelimited => rw [hclose rfl]
  | none => rw [w.body_of_none hhead, w.body_of_none (head_mono hfront hhead)]
  | tunnel => exact hframed.elim
  | other => exact hframed.elim

/-- The body of a response ends here. -/
def Ended (kind : BodyKind) (i : ℕ) (c : Cursor) : Prop :=
  match kind with
  | .contentLength _ | .chunked => w.complete i c.received
  | .closeDelimited => c.eof = true
  | .none => True
  | .tunnel | .other => False

/-- The head of response `i` is the last one that has been taken. -/
structure Reading (c : Cursor) (i : ℕ) (kind : BodyKind) : Prop where
  taken : c.taken = i + 1
  head : ∃ head, (w.heads c.received)[i]? = some (head, kind)
  framed : kind.Framed

/-- What has been read of the head stays so when more bytes arrive. -/
theorem Reading.receive {w : Wire} {c : Cursor} {i : ℕ} {kind : BodyKind} (h : w.Reading c i kind)
    (bytes : Bytes) : w.Reading (c.receive bytes) i kind := by
  obtain ⟨head, hhead⟩ := h.head
  exact ⟨h.taken, ⟨head, Wire.head_mono (List.prefix_append _ _) hhead⟩, h.framed⟩

/-- **Where a body ends it is whole**: it is the same at the end of the connection, and complete
there if its framing says where it ends. -/
theorem Reading.whole_of_ended {w : Wire} {c : Cursor} {i : ℕ} {kind : BodyKind} {total : Bytes}
    (h : w.Reading c i kind) (hended : w.Ended kind i c) (hfront : c.received <+: total)
    (heof : c.eof = true → c.received = total) :
    w.body i total = w.body i c.received ∧ (kind.SelfDelimited → w.complete i total) := by
  obtain ⟨head, hhead⟩ := h.head
  have hcomplete : kind.SelfDelimited → w.complete i c.received := by
    intro hkind
    cases kind with
    | contentLength n => exact hended
    | chunked => exact hended
    | closeDelimited | none | tunnel | other => exact hkind.elim
  have hclose : kind = .closeDelimited → c.received = total := by
    rintro rfl
    exact heof hended
  exact ⟨body_of_front hfront hhead h.framed hcomplete hclose,
    fun hkind => w.complete_mono hfront (hcomplete hkind)⟩

/-- All responses whose heads have been taken have no body. -/
def Bodiless (c : Cursor) : Prop := ∀ head ∈ (w.heads c.received).take c.taken, head.2 = .none

end Wire

/-- **A decoder gives out what the bytes hold.** `Tracks d c` says that the decoder in state
`d` has read a connection as far as `c` says, as the responses to requests with `method`. Only
a request to connect is answered by a tunnel. -/
structure Sound {δ : Type} (D : ResponseDecoder δ) (w : Wire) (method : List Char)
    (Tracks : δ → Cursor → Prop) : Prop where
  framed : method ≠ "CONNECT".toList → ∀ {received : Bytes} {i : ℕ} {head : ResponseHead}
    {kind : BodyKind}, (w.heads received)[i]? = some (head, kind) → kind.Framed
  withLimits : ∀ max, Tracks (D.withLimits max) (Cursor.start max)
  setRequestMethod : ∀ {d c} method, Tracks d c →
    Tracks (D.setRequestMethod d method) { c with method := some method }
  advanceBuf : ∀ {d c bytes}, Tracks d c → (c.eof = true → bytes = []) →
    bytes.length ≤ D.availableBuf d → Tracks (D.advanceBuf d bytes) (c.receive bytes)
  markEof : ∀ {d c}, Tracks d c → Tracks (D.markEof d) { c with eof := true }
  room : ∀ {d c}, Tracks d c → c.received = [] → 0 < D.availableBuf d
  decodeHeaders_some : ∀ {d d' c head kind}, Tracks d c → c.method = some method →
    w.Bodiless c → D.decodeHeaders d = .ok (some (head, kind), d') →
      (w.heads c.received)[c.taken]? = some (head, kind) ∧ Tracks d' (c.take kind)
  decodeHeaders_none : ∀ {d d' c}, Tracks d c → c.method = some method → w.Bodiless c →
    D.decodeHeaders d = .ok (none, d') →
      (w.heads c.received)[c.taken]? = none ∧ Tracks d' c ∧
        (w.acceptable c.received → 0 < D.availableBuf d')
  decodeHeaders_error : ∀ {d c e}, Tracks d c → c.method = some method → w.Bodiless c →
    D.decodeHeaders d = .error e → w.acceptable c.received →
      (c.eof = true ∧ (w.heads c.received)[c.taken]? = none) ∨
        ∃ head n, (w.heads c.received)[c.taken]? = some (head, .contentLength n) ∧
          c.maxBodySize < n
  peekBody : ∀ {d c i kind data}, Tracks d c → w.Reading c i kind → D.peekBody d = some data →
    data ≠ [] ∧ data <+: (w.body i c.received).drop c.consumed
  consumeBody_ok : ∀ {d d' c i kind data progress}, Tracks d c → w.Reading c i kind →
    D.peekBody d = some data → D.consumeBody d data.length = .ok (progress, d') →
      Tracks d' (c.consume data.length) ∧ (progress = .complete →
        c.consumed + data.length = (w.body i c.received).length ∧ w.Ended kind i c)
  consumeBody_error : ∀ {d c i kind data e}, Tracks d c → w.Reading c i kind →
    D.peekBody d = some data → D.consumeBody d data.length = .error e →
      w.acceptable c.received → c.maxBodySize < (w.body i c.received).length
  progress_ok : ∀ {d d' c i kind progress}, Tracks d c → w.Reading c i kind →
    D.peekBody d = none → D.progress d = .ok (progress, d') →
      Tracks d' c ∧
      (progress = .complete → c.consumed = (w.body i c.received).length ∧ w.Ended kind i c) ∧
      (progress = .needData → c.consumed = (w.body i c.received).length ∧
        ¬ w.Ended kind i c ∧ w.acceptable c.received ∧ 0 < D.availableBuf d')
  progress_error : ∀ {d c i kind e}, Tracks d c → w.Reading c i kind → D.peekBody d = none →
    D.progress d = .error e →
      w.acceptable c.received → c.maxBodySize < (w.body i c.received).length

/-! ### Taking out a body -/

section Drain

variable {δ σ ε : Type} (D : ResponseDecoder δ) (stop : Bool) (push : σ → Bytes → Except ε σ)
  (wrap : String → ε)

/-- Push all that has arrived of a body, piece by piece; says whether the body is complete.
With `stop`, a step that completes the body ends the loop; without it the loop asks again. -/
def drain (s : σ) (d : δ) : Except ε (Bool × σ × δ) :=
  match _hpeek : D.peekBody d with
  | some data =>
      match push s data with
      | .error e => .error e
      | .ok s =>
          match _hconsume : D.consumeBody d data.length with
          | .error e => .error (wrap e)
          | .ok (progress, d') =>
              if stop = true ∧ progress = .complete then .ok (true, s, d') else drain s d'
  | none =>
      match _hprogress : D.progress d with
      | .error e => .error (wrap e)
      | .ok (.complete, d') => .ok (true, s, d')
      | .ok (.advanced, d') => drain s d'
      | .ok (.needData, d') => .ok (false, s, d')
termination_by D.pendingBody d
decreasing_by
  · exact D.consumeBody_lt _hpeek _hconsume
  · exact D.progress_lt _hprogress

variable {D stop push wrap} {w : Wire} {method : List Char} {Tracks : δ → Cursor → Prop}

/-- The pieces are all of a body that has arrived and is not consumed yet. -/
structure Rest (w : Wire) (c : Cursor) (i : ℕ) (pieces : List Bytes) : Prop where
  eq_drop : pieces.flatten = (w.body i c.received).drop c.consumed
  length_eq : c.consumed + pieces.flatten.length = (w.body i c.received).length

/-- How the loop over the body of response `i` ends: all that has arrived is pushed, or a piece
is refused, or the decoder fails. -/
inductive Drained (w : Wire) (Tracks : δ → Cursor → Prop) (push : σ → Bytes → Except ε σ)
    (wrap : String → ε) (s : σ) (c : Cursor) (i : ℕ) (kind : BodyKind) :
    Except ε (Bool × σ × δ) → Prop
  | done (pieces : List Bytes) {s' : σ} {d' : δ} (hrest : Rest w c i pieces)
      (hpush : pieces.foldlM push s = .ok s')
      (htracks : Tracks d' (c.consume pieces.flatten.length)) (hended : w.Ended kind i c) :
      Drained w Tracks push wrap s c i kind (.ok (true, s', d'))
  | starved (pieces : List Bytes) {s' : σ} {d' : δ} (hrest : Rest w c i pieces)
      (hpush : pieces.foldlM push s = .ok s')
      (htracks : Tracks d' (c.consume pieces.flatten.length)) (hended : ¬ w.Ended kind i c)
      (hacceptable : w.acceptable c.received) (hroom : 0 < D.availableBuf d') :
      Drained w Tracks push wrap s c i kind (.ok (false, s', d'))
  | refused (pieces : List Bytes) {e : ε}
      (hfront : pieces.flatten <+: (w.body i c.received).drop c.consumed)
      (hpush : pieces.foldlM push s = .error e) :
      Drained w Tracks push wrap s c i kind (.error e)
  | failed {text : String}
      (herror : w.acceptable c.received → c.maxBodySize < (w.body i c.received).length) :
      Drained w Tracks push wrap s c i kind (.error (wrap text))

/-- A piece of the body in front of the pieces of the rest of it. -/
theorem Rest.cons {c : Cursor} {i : ℕ} {data : Bytes} {pieces : List Bytes}
    (hdata : data <+: (w.body i c.received).drop c.consumed)
    (h : Rest w (c.consume data.length) i pieces) : Rest w c i (data :: pieces) := by
  obtain ⟨back, hback⟩ := hdata
  have hdrop : (w.body i c.received).drop (c.consumed + data.length) = back := by
    rw [← List.drop_drop, ← hback, List.drop_left]
  constructor
  · rw [List.flatten_cons, h.eq_drop, ← hback]
    exact congrArg _ hdrop
  · rw [List.flatten_cons, List.length_append, ← Nat.add_assoc]
    exact h.length_eq

/-- Nothing is left of a body that is consumed. -/
theorem Rest.nil {c : Cursor} {i : ℕ} (h : c.consumed = (w.body i c.received).length) :
    Rest w c i [] :=
  ⟨by rw [h, List.drop_length]; rfl, h⟩

/-- A piece that has been pushed, in front of how the loop ends behind it; the four ends
are those of the rest. -/
theorem Drained.cons {s s₁ : σ} {c : Cursor} {i : ℕ} {kind : BodyKind} {data : Bytes}
    {result : Except ε (Bool × σ × δ)} (hdata : data <+: (w.body i c.received).drop c.consumed)
    (hpush : push s data = .ok s₁)
    (h : Drained (D := D) w Tracks push wrap s₁ (c.consume data.length) i kind result) :
    Drained (D := D) w Tracks push wrap s c i kind result := by
  have hfold : ∀ pieces, (data :: pieces).foldlM push s = pieces.foldlM push s₁ := by
    intro pieces
    rw [List.foldlM_cons, hpush]
    rfl
  have hconsume : ∀ pieces : List Bytes, (c.consume data.length).consume pieces.flatten.length =
      c.consume (data :: pieces).flatten.length := by
    intro pieces
    simp [Cursor.consume, Nat.add_assoc]
  cases h with
  | @done pieces _ _ hrest hpieces htracks hended =>
      exact .done _ (hrest.cons hdata) ((hfold pieces).trans hpieces) (hconsume pieces ▸ htracks)
        hended
  | @starved pieces _ _ hrest hpieces htracks hended hacceptable hroom =>
      exact .starved _ (hrest.cons hdata) ((hfold pieces).trans hpieces)
        (hconsume pieces ▸ htracks) hended hacceptable hroom
  | @refused pieces _ hfront hpieces =>
      refine .refused (data :: pieces) ?_ ((hfold pieces).trans hpieces)
      obtain ⟨back, hback⟩ := hdata
      have hdrop : (w.body i c.received).drop (c.consumed + data.length) = back := by
        rw [← List.drop_drop, ← hback, List.drop_left]
      rw [List.flatten_cons, ← hback, List.prefix_append_right_inj, ← hdrop]
      exact hfront
  | failed herror => exact .failed herror

variable (stop push wrap) in
/-- **The loop over a body** pushes all that has arrived, in order. By strong induction on
what the decoder has in its buffer, which each piece that is consumed makes shorter. -/
theorem drain_spec (S : Sound D w method Tracks) {s : σ} {d : δ} {c : Cursor} {i : ℕ}
    {kind : BodyKind} (htracks : Tracks d c) (hreading : w.Reading c i kind) :
    Drained (D := D) w Tracks push wrap s c i kind (drain D stop push wrap s d) := by
  induction hn : D.pendingBody d using Nat.strong_induction_on generalizing s d c with
  | _ n ih =>
      rw [drain]
      split
      · next data hpeek =>
          obtain ⟨-, hdata⟩ := S.peekBody htracks hreading hpeek
          split
          · next e hpush =>
              refine .refused [data] (by simpa using hdata) ?_
              rw [List.foldlM_cons, hpush]
              rfl
          · next s₁ hpush =>
              split
              · next e hconsume =>
                  exact .failed (S.consumeBody_error htracks hreading hpeek hconsume)
              · next progress d' hconsume =>
                  obtain ⟨htracks', hcomplete⟩ := S.consumeBody_ok htracks hreading hpeek hconsume
                  refine .cons hdata hpush ?_
                  split
                  · next hstop =>
                      obtain ⟨hlength, hended⟩ := hcomplete hstop.2
                      exact .done [] (.nil hlength) rfl htracks' hended
                  · exact ih _ (hn ▸ D.consumeBody_lt hpeek hconsume) htracks'
                      ⟨hreading.taken, hreading.head, hreading.framed⟩ rfl
      · next hpeek =>
          split
          · next e hprogress => exact .failed (S.progress_error htracks hreading hpeek hprogress)
          · next d' hprogress =>
              obtain ⟨htracks', hcomplete, -⟩ := S.progress_ok htracks hreading hpeek hprogress
              obtain ⟨hlength, hended⟩ := hcomplete rfl
              exact .done [] (.nil hlength) rfl htracks' hended
          · next d' hprogress =>
              obtain ⟨htracks', -⟩ := S.progress_ok htracks hreading hpeek hprogress
              exact ih _ (hn ▸ D.progress_lt hprogress) htracks' hreading rfl
          · next d' hprogress =>
              obtain ⟨htracks', -, hneed⟩ := S.progress_ok htracks hreading hpeek hprogress
              obtain ⟨hlength, hended, hacceptable, hroom⟩ := hneed rfl
              exact .starved [] (.nil hlength) rfl htracks' hended hacceptable hroom

end Drain

/-! ### A decoder that follows the wire -/

section Reference

variable (w : Wire) [∀ i received, Decidable (w.complete i received)] [DecidablePred w.acceptable]

instance (kind : BodyKind) (i : ℕ) (c : Cursor) : Decidable (w.Ended kind i c) := by
  cases kind <;> unfold Wire.Ended <;> infer_instance

/-- What is left of the body of the last head that has been taken. -/
def Wire.left (c : Cursor) : Bytes := (w.body (c.taken - 1) c.received).drop c.consumed

/-- The decoder whose state is how far the connection has been read. -/
def Wire.reference : ResponseDecoder Cursor where
  defaultMaxBodySize := 10 * 1024 * 1024
  withLimits := Cursor.start
  setRequestMethod c method := { c with method := some method }
  availableBuf _ := 65536
  advanceBuf := Cursor.receive
  markEof c := { c with eof := true }
  decodeHeaders c :=
    match (w.heads c.received)[c.taken]? with
    | some (head, kind) => .ok (some (head, kind), c.take kind)
    | none => .ok (none, c)
  peekBody c := if w.left c = [] then none else some (w.left c)
  consumeBody c n := .ok (.advanced, c.consume n)
  progress c :=
    match (w.heads c.received)[c.taken - 1]? with
    | some (_, kind) =>
        if w.Ended kind (c.taken - 1) c then .ok (.complete, c)
        else if w.acceptable c.received then .ok (.needData, c)
        else .error "malformed body"
    | none => .error "no response"
  pendingHeads c := (w.heads c.received).length - c.taken
  pendingBody c := (w.left c).length
  pendingHeads_setRequestMethod _ _ := Nat.le_refl _
  decodeHeaders_lt := by
    intro c c' head h
    split at h
    · next hhead =>
        obtain ⟨hlt, -⟩ := List.getElem?_eq_some_iff.mp hhead
        obtain ⟨-, rfl⟩ := Prod.mk.inj (Except.ok.inj h)
        exact Nat.sub_lt_sub_left hlt (Nat.lt_succ_self _)
    · exact absurd (congrArg Prod.fst (Except.ok.inj h)) (by simp)
  consumeBody_lt := by
    intro c c' data progress hpeek h
    obtain ⟨-, rfl⟩ := Prod.mk.inj (Except.ok.inj h)
    split at hpeek
    · exact absurd hpeek (by simp)
    · next hne =>
        obtain rfl := Option.some.inj hpeek
        have hpos := List.length_pos_iff.mpr hne
        simp only [Wire.left, Cursor.consume, List.length_drop] at hpos ⊢
        omega
  progress_lt := by
    intro c c' h
    split at h
    · split at h
      · exact absurd (congrArg Prod.fst (Except.ok.inj h)) (by simp)
      · split at h
        · exact absurd (congrArg Prod.fst (Except.ok.inj h)) (by simp)
        · exact absurd h (by simp)
    · exact absurd h (by simp)

/-- The reference decoder always has room. -/
theorem Wire.room_reference (c : Cursor) : 0 < w.reference.availableBuf c :=
  (by omega : 0 < 65536)

/-- The state of that decoder is where it is, within the body it reads. -/
def Wire.Follows (d c : Cursor) : Prop :=
  d = c ∧ c.consumed ≤ (w.body (c.taken - 1) c.received).length

/-- **A decoder that follows the wire is sound.** Each law is read off its definition,
which does what the wire says at the place it has got to. -/
theorem Wire.sound_reference (method : List Char)
    (hframed : ∀ {received : Bytes} {i : ℕ} {head : ResponseHead} {kind : BodyKind},
      (w.heads received)[i]? = some (head, kind) → kind.Framed) :
    Sound w.reference w method w.Follows where
  framed := fun _ => hframed
  withLimits max := ⟨rfl, Nat.zero_le _⟩
  setRequestMethod := by
    rintro d c method ⟨rfl, hle⟩
    exact ⟨rfl, hle⟩
  advanceBuf := by
    rintro d c bytes ⟨rfl, hle⟩ - -
    exact ⟨rfl, hle.trans (w.body_mono (List.prefix_append _ _)).length_le⟩
  markEof := by
    rintro d c ⟨rfl, hle⟩
    exact ⟨rfl, hle⟩
  room := fun _ _ => w.room_reference _
  decodeHeaders_some := by
    rintro d d' c head kind ⟨rfl, -⟩ - - h
    simp only [Wire.reference] at h
    split at h
    · next hhead =>
        obtain ⟨hsome, rfl⟩ := Prod.mk.inj (Except.ok.inj h)
        obtain ⟨rfl, rfl⟩ := Prod.mk.inj (Option.some.inj hsome)
        exact ⟨hhead, rfl, Nat.zero_le _⟩
    · exact absurd (congrArg Prod.fst (Except.ok.inj h)) (by simp)
  decodeHeaders_none := by
    rintro d d' c ⟨rfl, hle⟩ - - h
    simp only [Wire.reference] at h
    split at h
    · exact absurd (congrArg Prod.fst (Except.ok.inj h)) (by simp)
    · next hhead =>
        obtain ⟨-, rfl⟩ := Prod.mk.inj (Except.ok.inj h)
        exact ⟨hhead, ⟨rfl, hle⟩, fun _ => w.room_reference _⟩
  decodeHeaders_error := by
    rintro d c e ⟨rfl, -⟩ - - h
    simp only [Wire.reference] at h
    split at h
    · exact absurd h (by simp)
    · exact absurd h (by simp)
  peekBody := by
    rintro d c i kind data ⟨rfl, -⟩ hreading h
    simp only [Wire.reference] at h
    split at h
    · exact absurd h (by simp)
    · next hne =>
        obtain rfl := Option.some.inj h
        refine ⟨hne, ?_⟩
        rw [Wire.left, hreading.taken]
        exact List.prefix_refl _
  consumeBody_ok := by
    rintro d d' c i kind data progress ⟨rfl, hle⟩ hreading hpeek h
    obtain ⟨rfl, rfl⟩ := Prod.mk.inj (Except.ok.inj h)
    refine ⟨⟨rfl, ?_⟩, fun hcomplete => absurd hcomplete (by simp)⟩
    simp only [Wire.reference] at hpeek
    split at hpeek
    · exact absurd hpeek (by simp)
    · obtain rfl := Option.some.inj hpeek
      simp only [Cursor.consume, Wire.left, List.length_drop]
      omega
  consumeBody_error := by
    rintro d c i kind data e - - - h
    exact absurd h (by simp [Wire.reference])
  progress_ok := by
    rintro d d' c i kind progress ⟨rfl, hle⟩ hreading hpeek h
    have hconsumed : d.consumed = (w.body i d.received).length := by
      simp only [Wire.reference] at hpeek
      split at hpeek
      · next hnil =>
          rw [Wire.left, List.drop_eq_nil_iff, hreading.taken, Nat.add_sub_cancel] at hnil
          rw [hreading.taken, Nat.add_sub_cancel] at hle
          exact Nat.le_antisymm hle hnil
      · exact absurd hpeek (by simp)
    obtain ⟨head, hhead⟩ := hreading.head
    simp only [Wire.reference, hreading.taken, Nat.add_sub_cancel, hhead] at h
    split at h
    · next hended =>
        obtain ⟨rfl, rfl⟩ := Prod.mk.inj (Except.ok.inj h)
        exact ⟨⟨rfl, hle⟩, fun _ => ⟨hconsumed, hended⟩, fun hneed => absurd hneed (by simp)⟩
    · next hended =>
        split at h
        · next hacceptable =>
            obtain ⟨rfl, rfl⟩ := Prod.mk.inj (Except.ok.inj h)
            exact ⟨⟨rfl, hle⟩, fun hcomplete => absurd hcomplete (by simp),
              fun _ => ⟨hconsumed, hended, hacceptable, w.room_reference _⟩⟩
        · exact absurd h (by simp)
  progress_error := by
    rintro d c i kind e ⟨rfl, hle⟩ hreading hpeek h hacceptable
    obtain ⟨head, hhead⟩ := hreading.head
    simp only [Wire.reference, hreading.taken, Nat.add_sub_cancel, hhead, if_pos hacceptable] at h
    split at h
    · exact absurd h (by simp)
    · exact absurd h (by simp)

end Reference

/-! ### A connection with one response -/

/-- A connection on which a response with the given head arrives, whose body has a length. -/
def Wire.ofContentLength (headBytes : Bytes) (head : ResponseHead) (n : ℕ) : Wire where
  heads received :=
    if headBytes.length ≤ received.length then [(head, .contentLength n)] else []
  body i received := if i = 0 then (received.drop headBytes.length).take n else []
  complete i received := i = 0 ∧ headBytes.length + n ≤ received.length
  acceptable received := n ≤ u64Max ∧ (received <+: headBytes ∨ headBytes <+: received)
  heads_mono := by
    intro front received h
    have hle := h.length_le
    split
    · rw [if_pos (by omega)]
    · exact List.nil_prefix
  body_mono := by
    rintro front received i ⟨back, rfl⟩
    split
    · exact List.IsPrefix.take (List.IsPrefix.drop (List.prefix_append _ _) _) n
    · exact List.nil_prefix
  complete_mono := by
    rintro front received i h ⟨hi, hle⟩
    exact ⟨hi, hle.trans h.length_le⟩
  body_of_complete := by
    rintro front received i ⟨back, rfl⟩ ⟨hi, hle⟩
    rw [if_pos hi, if_pos hi, List.drop_append_of_le_length (by omega),
      List.take_append_of_le_length (by rw [List.length_drop]; omega)]
  acceptable_mono := by
    rintro front received hfront ⟨hn, hreceived | hreceived⟩
    · exact ⟨hn, .inl (hfront.trans hreceived)⟩
    · exact ⟨hn, List.prefix_or_prefix_of_prefix hfront hreceived⟩
  body_of_none := by
    intro received i head' h
    have hmem := List.mem_of_getElem? h
    split at hmem
    · exact absurd hmem (by simp)
    · exact absurd hmem List.not_mem_nil
  length_of_complete := by
    rintro received i m head' h ⟨rfl, hle⟩
    have hmem := List.mem_of_getElem? h
    rw [if_pos (by omega), List.mem_singleton, Prod.mk.injEq, BodyKind.contentLength.injEq] at hmem
    rw [if_pos rfl, List.length_take, List.length_drop]
    omega
  contentLength_le := by
    rintro received i m head' ⟨hn, -⟩ h
    have hmem := List.mem_of_getElem? h
    split at hmem
    · rw [List.mem_singleton, Prod.mk.injEq, BodyKind.contentLength.injEq] at hmem
      omega
    · exact absurd hmem List.not_mem_nil
  length_body_le := by
    rintro received i ⟨hn, -⟩
    split
    · exact (List.length_take_le _ _).trans hn
    · exact Nat.zero_le _

section OfContentLength

variable (headBytes : Bytes) (head : ResponseHead) (n : ℕ)

instance (i : ℕ) (received : Bytes) :
    Decidable ((Wire.ofContentLength headBytes head n).complete i received) :=
  inferInstanceAs (Decidable (_ ∧ _))

instance : DecidablePred (Wire.ofContentLength headBytes head n).acceptable :=
  fun _ => inferInstanceAs (Decidable (_ ∧ _))

/-- There is a sound decoder for such a connection. -/
theorem Wire.sound_ofContentLength (method : List Char) :
    Sound (Wire.ofContentLength headBytes head n).reference (Wire.ofContentLength headBytes head n)
      method (Wire.ofContentLength headBytes head n).Follows := by
  refine Wire.sound_reference _ method ?_
  intro received i head' kind h
  have hmem := List.mem_of_getElem? h
  simp only [Wire.ofContentLength] at hmem
  split at hmem
  · obtain ⟨-, rfl⟩ := Prod.mk.inj (List.mem_singleton.mp hmem)
    trivial
  · exact absurd hmem List.not_mem_nil

end OfContentLength

end Http
