import Mathlib.Logic.Function.Basic
import Mathlib.Data.List.Nodup

/-!
# Tables of Numbered Handles

The kernel names the open files of a process by small numbers and gives a number out again as
soon as it has been closed. A number alone does not say whose it is: a close with a number that
has been reused closes somebody else's file.

A `Table` holds for every number in use the file behind it and, as a ghost, the owner who has
to close it. Closing a number in another's name sets `fault`. `Exact` says that nothing of the
kind has happened and that the owners hold exactly the numbers in use: what nobody holds is
closed, and what somebody holds is open and his alone.

## Main results

* `Exact.openAt`, `Exact.close`, `Exact.closeAll`, `Exact.pass`: the operations keep a table
  exact when the holdings follow them.
* `Exact.unique`: a number has one holder.
-/

namespace Handles

/-- An open file and the owner of its number. -/
structure Entry (φ ω : Type*) where
  file : φ
  owner : ω
  deriving DecidableEq, Repr

/-- The numbers in use; `fault` is set by the close of a number that is not one's own. -/
structure Table (φ ω : Type*) where
  entry : ℕ → Option (Entry φ ω)
  fault : Bool

namespace Table

variable {φ ω : Type*}

/-- No number is in use. -/
def empty : Table φ ω := ⟨fun _ => none, false⟩

/-- Open a file under a number, for an owner. -/
def openAt (t : Table φ ω) (n : ℕ) (f : φ) (o : ω) : Table φ ω :=
  { t with entry := Function.update t.entry n (some ⟨f, o⟩) }

/-- Hand numbers on to another owner. -/
def pass (t : Table φ ω) (ns : List ℕ) (o : ω) : Table φ ω :=
  { t with entry := fun n => if n ∈ ns then (t.entry n).map fun e => ⟨e.file, o⟩ else t.entry n }

section

variable [DecidableEq ω]

/-- Close a number in the name of an owner. -/
def close (t : Table φ ω) (o : ω) (n : ℕ) : Table φ ω :=
  { entry := Function.update t.entry n none
    fault := t.fault || (t.entry n).map Entry.owner ≠ some o }

/-- Close several numbers in turn. -/
def closeAll (t : Table φ ω) (o : ω) (ns : List ℕ) : Table φ ω :=
  ns.foldl (fun t n => t.close o n) t

end

/-! ### Frames -/

/-- The entries once a number has been opened: the new one, and otherwise those from
before. -/
theorem entry_openAt (t : Table φ ω) (n : ℕ) (f : φ) (o : ω) (m : ℕ) :
    (t.openAt n f o).entry m = if m = n then some ⟨f, o⟩ else t.entry m :=
  Function.update_apply t.entry n _ m

/-- The entries once numbers have been passed on: the same files, held by the new
owner. -/
theorem entry_pass (t : Table φ ω) (ns : List ℕ) (o : ω) (m : ℕ) :
    (t.pass ns o).entry m =
      if m ∈ ns then (t.entry m).map fun e => ⟨e.file, o⟩ else t.entry m := rfl

/-- The entries once a number has been closed: the others, unchanged. -/
theorem entry_close [DecidableEq ω] (t : Table φ ω) (o : ω) (n m : ℕ) :
    (t.close o n).entry m = if m = n then none else t.entry m :=
  Function.update_apply t.entry n _ m

/-- The entries once several numbers have been closed: those of all other numbers, by
induction on the list of the numbers. -/
theorem entry_closeAll [DecidableEq ω] (t : Table φ ω) (o : ω) (ns : List ℕ) (m : ℕ) :
    (t.closeAll o ns).entry m = if m ∈ ns then none else t.entry m := by
  induction ns generalizing t with
  | nil => simp [closeAll]
  | cons n ns ih =>
      rw [closeAll, List.foldl_cons, ← closeAll, ih, entry_close]
      by_cases hn : m = n
      · simp [hn]
      · simp [hn]

/-- What is open under an owner of `P` stays open under him. -/
def Keeps (P : ω → Prop) (t t' : Table φ ω) : Prop :=
  ∀ n f o, P o → t.entry n = some ⟨f, o⟩ → t'.entry n = some ⟨f, o⟩

variable {P : ω → Prop} {t t' t'' : Table φ ω}

/-- What two changes in turn keep. -/
theorem Keeps.trans (h : Keeps P t t') (h' : Keeps P t' t'') : Keeps P t t'' :=
  fun n f o ho hn => h' n f o ho (h n f o ho hn)

/-- A file that is opened under a free number disturbs nobody. -/
theorem keeps_openAt {n : ℕ} (hfree : t.entry n = none) (f : φ) (o : ω) :
    Keeps P t (t.openAt n f o) := by
  intro m g o' _ hm
  rw [entry_openAt, if_neg, hm]
  rintro rfl
  exact absurd (hfree.symm.trans hm) (by simp)

/-- Numbers that are handed on were no business of the others. -/
theorem keeps_pass {o₀ : ω} {ns : List ℕ} (ho₀ : ¬ P o₀)
    (hns : ∀ n ∈ ns, ∃ f, t.entry n = some ⟨f, o₀⟩) (o : ω) : Keeps P t (t.pass ns o) := by
  intro m g o' ho' hm
  rw [entry_pass, if_neg, hm]
  intro hmem
  obtain ⟨f, hf⟩ := hns m hmem
  obtain ⟨-, rfl⟩ := Entry.mk.inj (Option.some.inj (hf.symm.trans hm))
  exact ho₀ ho'

/-- A close in one's own name disturbs nobody else. -/
theorem keeps_closeAll [DecidableEq ω] {o : ω} {ns : List ℕ} (ho : ¬ P o)
    (hns : ∀ n ∈ ns, ∃ f, t.entry n = some ⟨f, o⟩) : Keeps P t (t.closeAll o ns) := by
  intro m g o' ho' hm
  rw [entry_closeAll, if_neg, hm]
  intro hmem
  obtain ⟨f, hf⟩ := hns m hmem
  obtain ⟨-, rfl⟩ := Entry.mk.inj (Option.some.inj (hf.symm.trans hm))
  exact ho ho'

/-- To close one number in turn is to close it. -/
theorem closeAll_singleton [DecidableEq ω] (t : Table φ ω) (o : ω) (n : ℕ) :
    t.closeAll o [n] = t.close o n := rfl

/-! ### Exact holdings -/

/-- Nothing has been closed in another's name, and the owners hold exactly the numbers in
use. -/
structure Exact (t : Table φ ω) (holds : ω → ℕ → Prop) : Prop where
  sound : t.fault = false
  entry : ∀ o n, holds o n → ∃ f, t.entry n = some ⟨f, o⟩
  held : ∀ n e, t.entry n = some e → holds e.owner n

variable {holds holds' : ω → ℕ → Prop}

/-- A number has one holder. -/
theorem Exact.unique (h : t.Exact holds) {o o' : ω} {n : ℕ} (hn : holds o n) (hn' : holds o' n) :
    o = o' := by
  obtain ⟨f, hf⟩ := h.entry o n hn
  obtain ⟨g, hg⟩ := h.entry o' n hn'
  exact (Entry.mk.inj (Option.some.inj (hf.symm.trans hg))).2

/-- Nobody holds a free number. -/
theorem Exact.not_holds (h : t.Exact holds) {n : ℕ} (hfree : t.entry n = none) (o : ω) :
    ¬ holds o n := by
  intro hn
  obtain ⟨f, hf⟩ := h.entry o n hn
  exact absurd (hfree.symm.trans hf) (by simp)

/-- The same numbers may be held under another description. -/
theorem Exact.congr (h : t.Exact holds) (hiff : ∀ o n, holds' o n ↔ holds o n) :
    t.Exact holds' where
  sound := h.sound
  entry := fun o n hn => h.entry o n ((hiff o n).mp hn)
  held := fun n e he => (hiff e.owner n).mpr (h.held n e he)

/-- The empty table is exact when nobody holds anything. -/
theorem exact_empty (h : ∀ o n, ¬ holds o n) : (empty : Table φ ω).Exact holds where
  sound := rfl
  entry := fun o n hn => absurd hn (h o n)
  held := fun _ _ he => absurd he (by simp [empty])

/-- Opening a free number gives its owner this number. Nobody held it, so no other entry
of the table changes hands. -/
theorem Exact.openAt (h : t.Exact holds) {n : ℕ} (hfree : t.entry n = none) (f : φ) {o : ω}
    (hiff : ∀ o' m, holds' o' m ↔ holds o' m ∨ o' = o ∧ m = n) : (t.openAt n f o).Exact holds' where
  sound := h.sound
  entry := by
    intro o' m hm
    rw [entry_openAt]
    rcases (hiff o' m).mp hm with hm | ⟨rfl, rfl⟩
    · have hne : m ≠ n := by
        rintro rfl
        exact h.not_holds hfree o' hm
      rw [if_neg hne]
      exact h.entry o' m hm
    · exact ⟨f, if_pos rfl⟩
  held := by
    intro m e he
    rw [entry_openAt] at he
    split at he
    · next hmn =>
        obtain rfl := Option.some.inj he
        exact (hiff o m).mpr (.inr ⟨rfl, hmn⟩)
    · exact (hiff e.owner m).mpr (.inl (h.held m e he))

/-- Handing numbers on takes them from their owner and gives them to the new one. The
files under them stay the same. -/
theorem Exact.pass (h : t.Exact holds) {ns : List ℕ} {o o₀ : ω} (hns : ∀ n ∈ ns, holds o₀ n)
    (hiff : ∀ o' m, holds' o' m ↔ m ∉ ns ∧ holds o' m ∨ m ∈ ns ∧ o' = o) :
    (t.pass ns o).Exact holds' where
  sound := h.sound
  entry := by
    intro o' m hm
    rw [entry_pass]
    rcases (hiff o' m).mp hm with ⟨hnot, hm⟩ | ⟨hmem, rfl⟩
    · rw [if_neg hnot]
      exact h.entry o' m hm
    · obtain ⟨f, hf⟩ := h.entry o₀ m (hns m hmem)
      exact ⟨f, by rw [if_pos hmem, hf, Option.map_some]⟩
  held := by
    intro m e he
    rw [entry_pass] at he
    split at he
    · next hmem =>
        obtain ⟨e₀, -, rfl⟩ := Option.map_eq_some_iff.mp he
        exact (hiff o m).mpr (.inr ⟨hmem, rfl⟩)
    · next hnot => exact (hiff e.owner m).mpr (.inl ⟨hnot, h.held m e he⟩)

section

variable [DecidableEq ω]

/-- Closing a number that one holds is no fault, and takes it away. The entry was there,
and it was held by the one that closes it. -/
theorem Exact.close (h : t.Exact holds) {o : ω} {n : ℕ} (hn : holds o n)
    (hiff : ∀ o' m, holds' o' m ↔ holds o' m ∧ m ≠ n) : (t.close o n).Exact holds' where
  sound := by
    obtain ⟨f, hf⟩ := h.entry o n hn
    simp [Table.close, h.sound, hf]
  entry := by
    intro o' m hm
    obtain ⟨hm, hne⟩ := (hiff o' m).mp hm
    rw [entry_close, if_neg hne]
    exact h.entry o' m hm
  held := by
    intro m e he
    rw [entry_close] at he
    split at he
    · exact absurd he (by simp)
    · next hne => exact (hiff e.owner m).mpr ⟨h.held m e he, hne⟩

/-- Closing several different numbers that one holds takes them all away. By induction on
the numbers: the one that is closed first is not among the others. -/
theorem Exact.closeAll (h : t.Exact holds) {o : ω} {ns : List ℕ} (hnodup : ns.Nodup)
    (hns : ∀ n ∈ ns, holds o n) (hiff : ∀ o' m, holds' o' m ↔ holds o' m ∧ m ∉ ns) :
    (t.closeAll o ns).Exact holds' := by
  induction ns generalizing t holds with
  | nil => exact h.congr (by simpa using hiff)
  | cons n ns ih =>
      obtain ⟨hnotin, hnodup⟩ := List.nodup_cons.mp hnodup
      have hclose : (t.close o n).Exact fun o' m => holds o' m ∧ m ≠ n :=
        h.close (hns n List.mem_cons_self) fun _ _ => Iff.rfl
      refine ih hclose hnodup (fun m hm => ⟨hns m (List.mem_cons_of_mem n hm), ?_⟩) ?_
      · rintro rfl
        exact hnotin hm
      · intro o' m
        rw [hiff, List.mem_cons, not_or, and_assoc]

end

end Table

end Handles
