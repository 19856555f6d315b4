import ContainerRs.Lib.Outcomes
import Mathlib.Data.List.Basic

/-!
# Programs that Talk to a World

A program is done with a value, or it makes a request and goes on with whatever reply it gets.
Nothing is assumed about the replies, so what is proved of a program holds against every world.

A contract watches the requests: it keeps a state of its own and says which requests are allowed
in it. `Program.wp` asks that every request of a program is allowed and that its value and the
final state satisfy a postcondition; its rules follow the shape of programs, and its soundness
turns it into a fact about all runs, those that are abandoned half way included.

## Main results

* `Program.wp_bind`, `Program.wp_mono`: programs are judged piece by piece.
* `Program.wp_iterate`: the rule for a loop, with an invariant.
* `Program.runs_iterate`: a loop that has ended, round by round.
* `Program.Runs.of_within`: a run under a timer ends in time, or is abandoned when it fires.
* `Program.ewp_bind`: the rule for programs that may fail.
* `Program.Runs.of_wp`, `Program.Reaches.of_wp`: the contract holds of every run and of every
  abandoned run.
* `Program.runs_answerWith`: a world that answers determines a run.
* `Program.wp_implement`: a program whose requests are carried out by other programs keeps to
  their contract if each of these does.
* `Program.runs_implement`: it runs as the program runs with the values of the other programs.
-/

namespace Programs

/-- A program over the requests `Op`, each with its type of replies. -/
inductive Program (Op : Type) (Reply : Op → Type) (α : Type)
  | done (a : α)
  | call (op : Op) (next : Reply op → Program Op Reply α)

/-- A request with the reply to it. -/
abbrev Event (Op : Type) (Reply : Op → Type) : Type := (op : Op) × Reply op

variable {Op : Type} {Reply : Op → Type} {α β ε σ : Type}

namespace Program

/-- One program after the other. -/
def bind : Program Op Reply α → (α → Program Op Reply β) → Program Op Reply β
  | done a, f => f a
  | call op next, f => call op fun r => (next r).bind f

instance instMonad : Monad (Program Op Reply) where
  pure := done
  bind := bind

/-- The program of a single request. -/
def request (op : Op) : Program Op Reply (Reply op) := call op done

/-! ### Runs -/

/-- The program makes these requests, gets these replies and ends with the value. -/
inductive Runs : Program Op Reply α → List (Event Op Reply) → α → Prop
  | done (a : α) : Runs (done a) [] a
  | call {op : Op} {next : Reply op → Program Op Reply α} {tr : List (Event Op Reply)} {a : α}
      (r : Reply op) (h : Runs (next r) tr a) : Runs (call op next) (⟨op, r⟩ :: tr) a

/-- The program makes these requests and gets these replies, and may then have been abandoned. -/
inductive Reaches : Program Op Reply α → List (Event Op Reply) → Prop
  | here (p : Program Op Reply α) : Reaches p []
  | call {op : Op} {next : Reply op → Program Op Reply α} {tr : List (Event Op Reply)}
      (r : Reply op) (h : Reaches (next r) tr) : Reaches (call op next) (⟨op, r⟩ :: tr)

/-- A finished run has made its requests. -/
theorem Runs.reaches {p : Program Op Reply α} {tr : List (Event Op Reply)} {a : α}
    (h : Runs p tr a) : Reaches p tr := by
  induction h with
  | done a => exact .here _
  | call r _ ih => exact .call r ih

/-- What a world makes of a program if it answers from the requests so far, with these. -/
def answerWith (answer : List (Event Op Reply) → (op : Op) → Reply op) :
    Program Op Reply α → List (Event Op Reply) → List (Event Op Reply) × α
  | done a, _ => ([], a)
  | call op next, past =>
      let r := answer past op
      let rest := (next r).answerWith answer (past ++ [⟨op, r⟩])
      (⟨op, r⟩ :: rest.1, rest.2)

/-- **A world that answers determines a run.** -/
theorem runs_answerWith (answer : List (Event Op Reply) → (op : Op) → Reply op)
    (p : Program Op Reply α) (past : List (Event Op Reply)) :
    Runs p (p.answerWith answer past).1 (p.answerWith answer past).2 := by
  induction p generalizing past with
  | done a => exact .done a
  | call op next ih => exact .call _ (ih _ _)

/-- A program that does not fail in such a world has a run that does not. -/
theorem exists_runs_ok {p : Program Op Reply (Except ε α)}
    (answer : List (Event Op Reply) → (op : Op) → Reply op)
    (h : (p.answerWith answer []).2.isOk = true) : ∃ tr a, Runs p tr (.ok a) := by
  obtain ⟨a, ha⟩ := Outcomes.isOk_iff.mp h
  exact ⟨_, a, ha ▸ runs_answerWith answer p []⟩

/-- A run of one program after the other is a run of each. By induction on the first
program in one direction, and on its run in the other. -/
theorem runs_bind {p : Program Op Reply α} {f : α → Program Op Reply β}
    {tr : List (Event Op Reply)} {b : β} :
    Runs (p >>= f) tr b ↔
      ∃ a tr₁ tr₂, tr = tr₁ ++ tr₂ ∧ Runs p tr₁ a ∧ Runs (f a) tr₂ b := by
  constructor
  · intro h
    induction p generalizing tr with
    | done a => exact ⟨a, [], tr, rfl, .done a, h⟩
    | call op next ih =>
        change Runs (call op fun r => (next r).bind f) tr b at h
        cases h with
        | call r h =>
            obtain ⟨a, tr₁, tr₂, rfl, hp, hf⟩ := ih r h
            exact ⟨a, ⟨op, r⟩ :: tr₁, tr₂, rfl, .call r hp, hf⟩
  · rintro ⟨a, tr₁, tr₂, rfl, hp, hf⟩
    induction hp with
    | done a => exact hf
    | call r _ ih => exact .call r (ih hf)

/-- A program without requests runs without events and returns its value. -/
theorem runs_pure {a b : α} {tr : List (Event Op Reply)} :
    Runs (pure a : Program Op Reply α) tr b ↔ tr = [] ∧ a = b := by
  constructor
  · intro h
    cases h
    exact ⟨rfl, rfl⟩
  · rintro ⟨rfl, rfl⟩
    exact .done a

/-- A single request runs with one event and returns the reply. -/
theorem runs_request {op : Op} {r : Reply op} {tr : List (Event Op Reply)} :
    Runs (request op) tr r ↔ tr = [⟨op, r⟩] := by
  constructor
  · intro h
    cases h with
    | call r h =>
        cases h
        rfl
  · rintro rfl
    exact .call r (.done r)

/-- A run that begins with a request. -/
theorem runs_request_bind {op : Op} {f : Reply op → Program Op Reply α}
    {tr : List (Event Op Reply)} {a : α} :
    Runs (request op >>= f) tr a ↔ ∃ r rest, tr = ⟨op, r⟩ :: rest ∧ Runs (f r) rest a := by
  constructor
  · intro h
    change Runs (call op f) tr a at h
    cases h with
    | call r h => exact ⟨r, _, rfl, h⟩
  · rintro ⟨r, rest, rfl, h⟩
    exact .call r h

end Program

/-! ### The requests a program may make -/

namespace Program

/-- Every request that the program may make satisfies `P`. -/
def Calls (P : Op → Prop) : Program Op Reply α → Prop
  | done _ => True
  | call op next => P op ∧ ∀ r, (next r).Calls P

variable {P P' : Op → Prop} {p : Program Op Reply α}

/-- A program without requests satisfies every condition on them. -/
theorem calls_pure (a : α) : (pure a : Program Op Reply α).Calls P := trivial

/-- A single request satisfies what it is said to. -/
theorem calls_request {op : Op} (h : P op) : (request op : Program Op Reply _).Calls P :=
  ⟨h, fun _ => trivial⟩

/-- What all requests of the first part and of every continuation satisfy, all requests of
the whole do. -/
theorem Calls.bind {f : α → Program Op Reply β} (hp : p.Calls P) (hf : ∀ a, (f a).Calls P) :
    (p >>= f).Calls P := by
  induction p with
  | done a => exact hf a
  | call op next ih => exact ⟨hp.1, fun r => ih r (hp.2 r)⟩

/-- A weaker condition is satisfied as well. -/
theorem Calls.mono (h : p.Calls P) (hP : ∀ op, P op → P' op) : p.Calls P' := by
  induction p with
  | done a => trivial
  | call op next ih => exact ⟨hP op h.1, fun r => ih r (h.2 r)⟩

end Program

/-! ### Contracts -/

/-- What is asked of the requests: which are allowed, and how a state is kept of them. -/
structure Contract (Op : Type) (Reply : Op → Type) (σ : Type) where
  allowed : σ → Op → Prop
  after : σ → (op : Op) → Reply op → σ

namespace Contract

/-- The state behind the events. -/
def state (c : Contract Op Reply σ) (s : σ) (tr : List (Event Op Reply)) : σ :=
  tr.foldl (fun s e => c.after s e.1 e.2) s

/-- Every request is allowed when it is made. -/
def Obeys (c : Contract Op Reply σ) : σ → List (Event Op Reply) → Prop
  | _, [] => True
  | s, e :: tr => c.allowed s e.1 ∧ c.Obeys (c.after s e.1 e.2) tr

variable {c : Contract Op Reply σ} {s : σ}

@[simp] theorem state_nil : c.state s [] = s := rfl

@[simp] theorem state_cons (e : Event Op Reply) (tr : List (Event Op Reply)) :
    c.state s (e :: tr) = c.state (c.after s e.1 e.2) tr := rfl

/-- What is allowed was allowed before each of the requests. -/
theorem Obeys.of_append {tr₁ tr₂ : List (Event Op Reply)} (h : c.Obeys s (tr₁ ++ tr₂)) :
    c.Obeys s tr₁ ∧ c.Obeys (c.state s tr₁) tr₂ := by
  induction tr₁ generalizing s with
  | nil => exact ⟨trivial, h⟩
  | cons e tr₁ ih =>
      obtain ⟨hallowed, h⟩ := h
      obtain ⟨h₁, h₂⟩ := ih h
      exact ⟨⟨hallowed, h₁⟩, h₂⟩

/-- **Each request was allowed** in the state of what came before it. -/
theorem Obeys.allowed {tr pre post : List (Event Op Reply)} {e : Event Op Reply}
    (h : c.Obeys s tr) (hsplit : tr = pre ++ e :: post) : c.allowed (c.state s pre) e.1 :=
  (hsplit ▸ h).of_append.2.1

end Contract

namespace Program

section Wp

variable (c : Contract Op Reply σ)

/-- Every request is allowed, and the value and the state at the end satisfy `Q`. -/
def wp : Program Op Reply α → (α → σ → Prop) → σ → Prop
  | done a, Q, s => Q a s
  | call op next, Q, s => c.allowed s op ∧ ∀ r, (next r).wp Q (c.after s op r)

variable {c} {Q Q' : α → σ → Prop} {s : σ}

/-- A program that has ended: what holds of its value in this state. -/
@[simp] theorem wp_done (a : α) : (done a : Program Op Reply α).wp c Q s ↔ Q a s := Iff.rfl

/-- A value without a request: what holds of it in this state. -/
@[simp] theorem wp_pure (a : α) : (pure a : Program Op Reply α).wp c Q s ↔ Q a s := Iff.rfl

/-- **The rule for a request**: it is allowed, and whatever the reply is, the rest of the
program keeps to the contract from the state behind it. -/
@[simp] theorem wp_call (op : Op) (next : Reply op → Program Op Reply α) :
    (call op next).wp c Q s ↔ c.allowed s op ∧ ∀ r, (next r).wp c Q (c.after s op r) := Iff.rfl

/-- A single request: it is allowed, and every reply is as it should be. -/
@[simp] theorem wp_request (op : Op) {Q : Reply op → σ → Prop} :
    (request op).wp c Q s ↔ c.allowed s op ∧ ∀ r, Q r (c.after s op r) := Iff.rfl

/-- **The rule of sequence.** -/
@[simp] theorem wp_bind (p : Program Op Reply α) (f : α → Program Op Reply β)
    {Q : β → σ → Prop} :
    (p >>= f).wp c Q s ↔ p.wp c (fun a => (f a).wp c Q) s := by
  change (p.bind f).wp c Q s ↔ _
  induction p generalizing s with
  | done a => rfl
  | call op next ih => simp only [bind, wp_call, ih]

/-- **The rule of consequence.** -/
theorem wp_mono {p : Program Op Reply α} (h : p.wp c Q s) (hQ : ∀ a s, Q a s → Q' a s) :
    p.wp c Q' s := by
  induction p generalizing s with
  | done a => exact hQ a s h
  | call op next ih => exact ⟨h.1, fun r => ih r (h.2 r)⟩

/-- **Soundness**: a run obeys the contract and ends as the postcondition says. -/
theorem Runs.of_wp {p : Program Op Reply α} {tr : List (Event Op Reply)} {a : α}
    (hrun : Runs p tr a) (h : p.wp c Q s) : c.Obeys s tr ∧ Q a (c.state s tr) := by
  induction hrun generalizing s with
  | done a => exact ⟨trivial, h⟩
  | call r _ ih =>
      obtain ⟨hobeys, hQ⟩ := ih (h.2 r)
      exact ⟨⟨h.1, hobeys⟩, hQ⟩

/-- **Soundness for abandoned runs**: they obey the contract as well. -/
theorem Reaches.of_wp {p : Program Op Reply α} {tr : List (Event Op Reply)}
    (hrun : Reaches p tr) (h : p.wp c Q s) : c.Obeys s tr := by
  induction hrun generalizing s with
  | here p => trivial
  | call r _ ih => exact ⟨h.1, ih (h.2 r)⟩

end Wp

/-- Requests that are allowed and change nothing leave everything as it is. -/
theorem Calls.wp {c : Contract Op Reply σ} {P : Op → Prop} {s : σ} {p : Program Op Reply α}
    (h : p.Calls P) (hneutral : ∀ op, P op → c.allowed s op ∧ ∀ r, c.after s op r = s) :
    p.wp c (fun _ s' => s' = s) s := by
  induction p with
  | done a => rfl
  | call op next ih =>
      refine ⟨(hneutral op h.1).1, fun r => ?_⟩
      rw [(hneutral op h.1).2 r]
      exact ih r (h.2 r)

/-! ### Loops -/

/-- The rounds of a loop: each goes on with a new local state or ends the loop. `none` if it has
not ended within so many rounds. -/
def iterate (body : α → Program Op Reply (α ⊕ β)) : ℕ → α → Program Op Reply (Option β)
  | 0, _ => pure none
  | rounds + 1, a => do
      match ← body a with
      | .inl a => iterate body rounds a
      | .inr b => pure (some b)

/-- **The rule of loops**: an invariant that every round keeps or ends with the
postcondition. By induction on the rounds that are left. -/
theorem wp_iterate {c : Contract Op Reply σ} {Q : Option β → σ → Prop}
    {body : α → Program Op Reply (α ⊕ β)} (Inv : α → σ → Prop)
    (hbody : ∀ a s, Inv a s → (body a).wp c (fun r s => r.elim (Inv · s) (fun b => Q (some b) s)) s)
    (hnone : ∀ a s, Inv a s → Q none s) {a : α} {s : σ} (h : Inv a s) (rounds : ℕ) :
    (iterate body rounds a).wp c Q s := by
  induction rounds generalizing a s with
  | zero => exact hnone a s h
  | succ rounds ih =>
      rw [iterate, wp_bind]
      refine wp_mono (hbody a s h) ?_
      intro r s hr
      cases r with
      | inl a => exact ih hr
      | inr b => exact hr

/-- A loop makes the requests of its body, by induction on the rounds that are left. -/
theorem Calls.iterate {P : Op → Prop} {body : α → Program Op Reply (α ⊕ β)}
    (h : ∀ a, (body a).Calls P) (rounds : ℕ) (a : α) : (iterate body rounds a).Calls P := by
  induction rounds generalizing a with
  | zero => trivial
  | succ rounds ih =>
      refine (h a).bind ?_
      rintro (a | b)
      · exact ih a
      · trivial

/-- A loop that ends behind so many rounds, with the requests in all of them. -/
inductive Loops (body : α → Program Op Reply (α ⊕ β)) :
    ℕ → α → List (Event Op Reply) → β → Prop
  | last {a : α} {b : β} {tr : List (Event Op Reply)} (h : Runs (body a) tr (.inr b)) :
      Loops body 0 a tr b
  | again {n : ℕ} {a a' : α} {b : β} {tr rest : List (Event Op Reply)}
      (h : Runs (body a) tr (.inl a')) (hrest : Loops body n a' rest b) :
      Loops body (n + 1) a (tr ++ rest) b

section Iterate

variable {body : α → Program Op Reply (α ⊕ β)} {rounds : ℕ} {a : α} {b : β}
  {tr : List (Event Op Reply)}

/-- **The rounds of a loop** that has ended. The number of its rounds is below the bound:
by induction on the bound in one direction, and on the rounds made in the other. -/
theorem runs_iterate :
    Runs (iterate body rounds a) tr (some b) ↔ ∃ n < rounds, Loops body n a tr b := by
  constructor
  · intro h
    induction rounds generalizing a tr with
    | zero => exact absurd (runs_pure.mp h).2 (by simp)
    | succ rounds ih =>
        rw [iterate, runs_bind] at h
        obtain ⟨r, tr₁, tr₂, rfl, hround, hrest⟩ := h
        cases r with
        | inl a' =>
            obtain ⟨n, hn, hloops⟩ := ih hrest
            exact ⟨n + 1, by omega, .again hround hloops⟩
        | inr b' =>
            obtain ⟨rfl, hb⟩ := runs_pure.mp hrest
            obtain rfl := Option.some.inj hb
            rw [List.append_nil]
            exact ⟨0, by omega, .last hround⟩
  · rintro ⟨n, hn, h⟩
    induction h generalizing rounds with
    | last h =>
        obtain ⟨rounds, rfl⟩ := Nat.exists_eq_add_one.mpr hn
        rw [iterate, runs_bind]
        exact ⟨_, _, [], (List.append_nil _).symm, h, .done _⟩
    | again h hrest ih =>
        obtain ⟨rounds, rfl⟩ := Nat.exists_eq_add_one.mpr (Nat.zero_lt_of_lt hn)
        rw [iterate, runs_bind]
        exact ⟨_, _, _, rfl, h, ih (by omega)⟩

/-- A loop that has not ended has made all its rounds, with a request in each. By
induction on the rounds. -/
theorem Runs.rounds_le (hbody : ∀ a a' tr, Runs (body a) tr (.inl a') → tr ≠ [])
    (h : Runs (iterate body rounds a) tr none) : rounds ≤ tr.length := by
  induction rounds generalizing a tr with
  | zero => exact Nat.zero_le _
  | succ rounds ih =>
      rw [iterate, runs_bind] at h
      obtain ⟨r, tr₁, tr₂, rfl, hround, hrest⟩ := h
      cases r with
      | inl a' =>
          have hpos := List.length_pos_iff.mpr (hbody a a' tr₁ hround)
          have hle := ih hrest
          rw [List.length_append]
          omega
      | inr b' => exact absurd (runs_pure.mp hrest).2 (by simp)

end Iterate

/-! ### Timers -/

/-- A program under a timer that fires when `awaits` of its requests are answered; `none` if it
has fired. -/
def within : ℕ → Program Op Reply α → Program Op Reply (Option α)
  | _, done a => done (some a)
  | 0, call _ _ => done none
  | awaits + 1, call op next => call op fun r => (next r).within awaits

/-- A program under a timer makes its own requests, and perhaps not all of them. -/
theorem Calls.within {P : Op → Prop} {p : Program Op Reply α} (h : p.Calls P) (awaits : ℕ) :
    (p.within awaits).Calls P := by
  induction p generalizing awaits with
  | done a => cases awaits <;> trivial
  | call op next ih =>
      cases awaits with
      | zero => trivial
      | succ awaits => exact ⟨h.1, fun r => ih r (h.2 r) awaits⟩

/-- A run under a timer is a run of the program, or one that is abandoned when the timer
fires. In the second case it has made as many requests as the timer left time for. -/
theorem Runs.of_within {awaits : ℕ} {p : Program Op Reply α} {tr : List (Event Op Reply)}
    {a : Option α} (h : Runs (p.within awaits) tr a) :
    (∃ b, a = some b ∧ Runs p tr b) ∨ (a = none ∧ Reaches p tr ∧ tr.length = awaits) := by
  induction p generalizing awaits tr with
  | done b =>
      cases awaits <;> cases h <;> exact .inl ⟨b, rfl, .done b⟩
  | call op next ih =>
      cases awaits with
      | zero =>
          cases h
          exact .inr ⟨rfl, .here _, rfl⟩
      | succ awaits =>
          cases h with
          | call r h =>
              rcases ih r h with ⟨b, rfl, hb⟩ | ⟨rfl, hr, hlen⟩
              · exact .inl ⟨b, rfl, .call r hb⟩
              · exact .inr ⟨rfl, .call r hr, congrArg (· + 1) hlen⟩

/-- Under a timer no more requests are made than it leaves time for, whether it ends in
time or not. -/
theorem Runs.length_le_of_within {awaits : ℕ} {p : Program Op Reply α}
    {tr : List (Event Op Reply)} {a : Option α} (h : Runs (p.within awaits) tr a) :
    tr.length ≤ awaits := by
  induction p generalizing awaits tr with
  | done b =>
      cases awaits <;> cases h <;> exact Nat.zero_le _
  | call op next ih =>
      cases awaits with
      | zero =>
          cases h
          exact Nat.zero_le _
      | succ awaits =>
          cases h with
          | call r h =>
              have := ih r h
              rw [List.length_cons]
              omega

/-! ### Programs that may fail -/

section Fallible

variable {c : Contract Op Reply σ} {s : σ}

/-- Every request is allowed; a value at the end satisfies `Q`, and an error `E`. -/
def ewp (c : Contract Op Reply σ) (p : ExceptT ε (Program Op Reply) α) (Q : α → σ → Prop)
    (E : ε → σ → Prop) (s : σ) : Prop :=
  p.run.wp c (fun r s => r.casesOn (E · s) (Q · s)) s

variable {Q Q' : α → σ → Prop} {E E' : ε → σ → Prop}

/-- What holds of the outcome of a program that may fail. -/
theorem wp_run {p : ExceptT ε (Program Op Reply) α} {Q : Except ε α → σ → Prop} :
    p.run.wp c Q s ↔ ewp c p (fun a => Q (.ok a)) (fun e => Q (.error e)) s := by
  constructor
  all_goals
    intro h
    refine wp_mono h ?_
    rintro (e | a) s h <;> exact h

/-- A value without a request, in a program that may fail. -/
@[simp] theorem ewp_pure (a : α) :
    ewp c (pure a : ExceptT ε (Program Op Reply) α) Q E s ↔ Q a s := Iff.rfl

/-- An error without a request: what holds of it in this state. -/
@[simp] theorem ewp_throw (e : ε) :
    ewp c (throw e : ExceptT ε (Program Op Reply) α) Q E s ↔ E e s := Iff.rfl

/-- A program that cannot fail, within one that may. -/
@[simp] theorem ewp_lift (p : Program Op Reply α) :
    ewp c (ExceptT.lift p : ExceptT ε (Program Op Reply) α) Q E s ↔ p.wp c Q s := by
  change (p.bind fun a => done (Except.ok a : Except ε α)).wp c _ s ↔ _
  exact wp_bind p fun a => done (Except.ok a)

/-- A program that returns its error as a value: what holds of either. -/
@[simp] theorem ewp_mk (p : Program Op Reply (Except ε α)) :
    ewp c (ExceptT.mk p) Q E s ↔ p.wp c (fun r s => r.casesOn (E · s) (Q · s)) s := Iff.rfl

/-- **The rule of sequence** for programs that may fail: an error ends both. -/
@[simp] theorem ewp_bind (p : ExceptT ε (Program Op Reply) α)
    (f : α → ExceptT ε (Program Op Reply) β) {Q : β → σ → Prop} :
    ewp c (p >>= f) Q E s ↔ ewp c p (fun a => ewp c (f a) Q E) E s := by
  change (p.run.bind (ExceptT.bindCont f)).wp c _ s ↔ _
  refine (wp_bind p.run (ExceptT.bindCont f)).trans ?_
  constructor
  all_goals
    intro h
    refine wp_mono h ?_
    rintro (e | a) s h <;> exact h

/-- **The rule of consequence** for programs that may fail. -/
theorem ewp_mono {p : ExceptT ε (Program Op Reply) α} (h : ewp c p Q E s)
    (hQ : ∀ a s, Q a s → Q' a s) (hE : ∀ e s, E e s → E' e s) : ewp c p Q' E' s := by
  refine wp_mono h ?_
  rintro (e | a) s h
  · exact hE e s h
  · exact hQ a s h

/-- A program that only makes neutral requests leaves the state as it is. -/
theorem Calls.ewp {P : Op → Prop} {p : ExceptT ε (Program Op Reply) α} (h : p.run.Calls P)
    (hneutral : ∀ op, P op → c.allowed s op ∧ ∀ r, c.after s op r = s) :
    Program.ewp c p (fun _ s' => s' = s) (fun _ s' => s' = s) s := by
  refine wp_mono (h.wp hneutral) ?_
  rintro (e | a) s' rfl <;> rfl

/-- The same for programs that may fail: behind an error there are no further requests. -/
theorem Calls.ebind {P : Op → Prop} {p : ExceptT ε (Program Op Reply) α}
    {f : α → ExceptT ε (Program Op Reply) β} (hp : p.run.Calls P) (hf : ∀ a, (f a).run.Calls P) :
    (p >>= f).run.Calls P := by
  refine Calls.bind (f := ExceptT.bindCont f) hp ?_
  rintro (e | a)
  · exact calls_pure _
  · exact hf a

/-- A run of both that ends with a value. -/
theorem runs_ok_bind {p : ExceptT ε (Program Op Reply) α} {f : α → ExceptT ε (Program Op Reply) β}
    {tr : List (Event Op Reply)} {b : β} :
    Runs (p >>= f).run tr (.ok b) ↔
      ∃ a tr₁ tr₂, tr = tr₁ ++ tr₂ ∧ Runs p.run tr₁ (.ok a) ∧ Runs (f a).run tr₂ (.ok b) := by
  change Runs (p.run >>= ExceptT.bindCont f) tr (.ok b) ↔ _
  rw [runs_bind]
  constructor
  · rintro ⟨e | a, tr₁, tr₂, rfl, hp, hf⟩
    · exact nomatch (runs_pure.mp hf).2
    · exact ⟨a, tr₁, tr₂, rfl, hp, hf⟩
  · rintro ⟨a, tr₁, tr₂, rfl, hp, hf⟩
    exact ⟨.ok a, tr₁, tr₂, rfl, hp, hf⟩

/-- A run of both: the first fails, or the second runs with its value. -/
theorem runs_ebind {p : ExceptT ε (Program Op Reply) α} {f : α → ExceptT ε (Program Op Reply) β}
    {tr : List (Event Op Reply)} {r : Except ε β} :
    Runs (p >>= f).run tr r ↔
      (∃ e, r = .error e ∧ Runs p.run tr (.error e)) ∨
        ∃ a tr₁ tr₂, tr = tr₁ ++ tr₂ ∧ Runs p.run tr₁ (.ok a) ∧ Runs (f a).run tr₂ r := by
  change Runs (p.run >>= ExceptT.bindCont f) tr r ↔ _
  rw [runs_bind]
  constructor
  · rintro ⟨e | a, tr₁, tr₂, rfl, hp, hf⟩
    · obtain ⟨rfl, rfl⟩ := runs_pure.mp hf
      exact .inl ⟨e, rfl, by rwa [List.append_nil]⟩
    · exact .inr ⟨a, tr₁, tr₂, rfl, hp, hf⟩
  · rintro (⟨e, rfl, hp⟩ | ⟨a, tr₁, tr₂, rfl, hp, hf⟩)
    · exact ⟨.error e, tr, [], (List.append_nil tr).symm, hp, .done _⟩
    · exact ⟨.ok a, tr₁, tr₂, rfl, hp, hf⟩

/-- A program that cannot fail, within one that may, runs as it does alone and ends
well. -/
theorem runs_lift {p : Program Op Reply α} {tr : List (Event Op Reply)} {r : Except ε α} :
    Runs (ExceptT.lift p : ExceptT ε (Program Op Reply) α).run tr r ↔
      ∃ a, r = .ok a ∧ Runs p tr a := by
  change Runs (p >>= fun a => pure (Except.ok a)) tr r ↔ _
  rw [runs_bind]
  constructor
  · rintro ⟨a, tr₁, tr₂, rfl, hp, hpure⟩
    obtain ⟨rfl, rfl⟩ := runs_pure.mp hpure
    exact ⟨a, rfl, by rwa [List.append_nil]⟩
  · rintro ⟨a, rfl, hp⟩
    exact ⟨a, tr, [], (List.append_nil tr).symm, hp, .done _⟩

end Fallible

/-! ### Programs carried out by programs -/

section Implement

variable {Op' : Type} {Reply' : Op' → Type} {σ' : Type}
  {impl : (op : Op) → Program Op' Reply' (Reply op)}

/-- The program with each of its requests carried out by a program of its own. -/
def implement (impl : (op : Op) → Program Op' Reply' (Reply op)) :
    Program Op Reply α → Program Op' Reply' α
  | done a => done a
  | call op next => impl op >>= fun r => (next r).implement impl

/-- **The rule of implementations**: if the program of each request that is allowed keeps to a
contract below and relates the states behind it, so does the whole. -/
theorem wp_implement {c : Contract Op Reply σ} {c' : Contract Op' Reply' σ'} {Rel : σ → σ' → Prop}
    (himpl : ∀ s s' op, Rel s s' → c.allowed s op →
      (impl op).wp c' (fun r t => Rel (c.after s op r) t) s')
    {p : Program Op Reply α} {Q : α → σ → Prop} {s : σ} {s' : σ'} (hp : p.wp c Q s)
    (hs : Rel s s') : (p.implement impl).wp c' (fun a t => ∃ u, Rel u t ∧ Q a u) s' := by
  induction p generalizing s s' with
  | done a => exact ⟨s, hs, hp⟩
  | call op next ih =>
      rw [implement, wp_bind]
      refine wp_mono (himpl s s' op hs hp.1) ?_
      intro r t ht
      exact ih r (hp.2 r) ht

/-- Requests below that carry out the requests above, each with the value that is its reply. -/
inductive Realizes (impl : (op : Op) → Program Op' Reply' (Reply op)) :
    List (Event Op Reply) → List (Event Op' Reply') → Prop
  | nil : Realizes impl [] []
  | cons {op : Op} {r : Reply op} {tr : List (Event Op Reply)} {part rest : List (Event Op' Reply')}
      (h : Runs (impl op) part r) (hrest : Realizes impl tr rest) :
      Realizes impl (⟨op, r⟩ :: tr) (part ++ rest)

/-- **A run of the whole** is a run of the program whose requests are carried out. By
induction on the program. -/
theorem runs_implement {p : Program Op Reply α} {low : List (Event Op' Reply')} {a : α}
    (h : Runs (p.implement impl) low a) : ∃ tr, Runs p tr a ∧ Realizes impl tr low := by
  induction p generalizing low with
  | done b =>
      obtain ⟨rfl, rfl⟩ := runs_pure.mp h
      exact ⟨[], .done b, .nil⟩
  | call op next ih =>
      obtain ⟨r, part, rest, rfl, hpart, hrest⟩ := runs_bind.mp h
      obtain ⟨tr, hrun, hreal⟩ := ih r hrest
      exact ⟨⟨op, r⟩ :: tr, .call r hrun, .cons hpart hreal⟩

/-- What is asked first is carried out first. By induction on what is asked first. -/
theorem Realizes.append {front behind : List (Event Op Reply)} {low : List (Event Op' Reply')}
    (h : Realizes impl (front ++ behind) low) :
    ∃ low₁ low₂, low = low₁ ++ low₂ ∧ Realizes impl front low₁ ∧ Realizes impl behind low₂ := by
  induction front generalizing low with
  | nil => exact ⟨[], low, rfl, .nil, h⟩
  | cons e front ih =>
      cases h with
      | @cons op r _ part rest hpart hrest =>
          obtain ⟨low₁, low₂, rfl, hfront, hbehind⟩ := ih hrest
          exact ⟨part ++ low₁, low₂, (List.append_assoc _ _ _).symm, .cons hpart hfront, hbehind⟩

/-- What is asked above has been carried out below. By induction on the realization. -/
theorem Realizes.exists_part {tr : List (Event Op Reply)} {low : List (Event Op' Reply')}
    (h : Realizes impl tr low) {e : Event Op Reply} (he : e ∈ tr) :
    ∃ part, Runs (impl e.1) part e.2 ∧ ∀ e' ∈ part, e' ∈ low := by
  induction h with
  | nil => exact absurd he List.not_mem_nil
  | cons h _ ih =>
      rcases List.mem_cons.mp he with rfl | he
      · exact ⟨_, h, fun e' he' => List.mem_append_left _ he'⟩
      · obtain ⟨part, hpart, hsub⟩ := ih he
        exact ⟨part, hpart, fun e' he' => List.mem_append_right _ (hsub e' he')⟩

end Implement

end Program

end Programs
