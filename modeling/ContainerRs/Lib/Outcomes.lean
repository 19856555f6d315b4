import Mathlib.Data.List.Basic
import Mathlib.Logic.Basic

/-!
# Fallible Computations

A chain of `Except` computations succeeds if every one of them does.

## Main results

* `isOk_iff`: a success has a value.
* `bind_eq_ok`: a bind succeeds iff both of its parts do.
* `mapError_eq_ok`: renaming errors does not touch a success.
* `foldlM_isOk_iff`: a loop succeeds iff each step does in the state it is reached in.
* `forM_eq_ok_iff`: a check of all items succeeds iff each of them passes.
-/

namespace Outcomes

universe u v

variable {ε ε' : Type v} {α β : Type u}

/-- A success has a value. -/
theorem isOk_iff {x : Except ε α} : x.isOk = true ↔ ∃ a, x = .ok a := by
  cases x with
  | error e =>
      constructor
      · intro h
        exact absurd h Bool.false_ne_true
      · rintro ⟨a, h⟩
        exact absurd h (by simp)
  | ok a => exact ⟨fun _ => ⟨a, rfl⟩, fun _ => rfl⟩

/-- A bind succeeds iff both of its parts do. -/
theorem bind_eq_ok {x : Except ε α} {f : α → Except ε β} {b : β} :
    x >>= f = .ok b ↔ ∃ a, x = .ok a ∧ f a = .ok b := by
  cases x with
  | error e =>
      constructor
      · intro h
        exact absurd h (by simp [bind, Except.bind])
      · rintro ⟨a, h, -⟩
        exact absurd h (by simp)
  | ok a =>
      constructor
      · intro h
        exact ⟨a, rfl, h⟩
      · rintro ⟨a', h, hb⟩
        obtain rfl := Except.ok.inj h
        exact hb

/-- Renaming errors does not touch a success. -/
theorem mapError_eq_ok {x : Except ε α} {f : ε → ε'} {a : α} :
    x.mapError f = .ok a ↔ x = .ok a := by
  cases x with
  | error e =>
      constructor
      · intro h
        cases h
      · intro h
        cases h
  | ok b => exact ⟨fun h => congrArg _ (Except.ok.inj h), fun h => congrArg _ (Except.ok.inj h)⟩

/-- What is left of a result without its error. -/
theorem toOption_eq_some_iff {x : Except ε α} {a : α} : x.toOption = some a ↔ x = .ok a := by
  cases x <;> simp [Except.toOption]

/-- **A loop succeeds** iff each step does in the state it is reached in. By induction on
the items: a split of the list is one at its head, or one of its tail behind the first
step. -/
theorem foldlM_isOk_iff {σ : Type u} {ι : Type u} {step : σ → ι → Except ε σ} {s : σ}
    {items : List ι} :
    (∃ t, items.foldlM step s = .ok t) ↔
      ∀ pre item post t, items = pre ++ item :: post → pre.foldlM step s = .ok t →
        ∃ t', step t item = .ok t' := by
  induction items generalizing s with
  | nil =>
      refine iff_of_true ⟨s, rfl⟩ ?_
      intro pre item post t hsplit
      exact absurd hsplit (by simp)
  | cons first items ih =>
      constructor
      · rintro ⟨t, ht⟩ pre item post u hsplit hpre
        rw [List.foldlM_cons, bind_eq_ok] at ht
        obtain ⟨s', hs', hrest⟩ := ht
        cases pre with
        | nil =>
            obtain ⟨rfl, rfl⟩ := List.cons.inj hsplit
            obtain rfl := Except.ok.inj hpre
            exact ⟨s', hs'⟩
        | cons first' pre =>
            obtain ⟨rfl, rfl⟩ := List.cons.inj hsplit
            rw [List.foldlM_cons, hs'] at hpre
            exact ih.mp ⟨t, hrest⟩ pre item post u rfl hpre
      · intro h
        obtain ⟨s', hs'⟩ := h [] first items s rfl rfl
        rw [List.foldlM_cons, hs']
        refine ih.mpr ?_
        rintro pre item post t rfl hpre
        refine h (first :: pre) item post t rfl ?_
        rw [List.foldlM_cons, hs']
        exact hpre

/-- **A check of all items** succeeds iff each of them passes. By induction on the
items. -/
theorem forM_eq_ok_iff {check : α → Except ε PUnit} {items : List α} :
    forM items check = .ok () ↔ ∀ item ∈ items, check item = .ok () := by
  induction items with
  | nil => exact iff_of_true rfl (by simp)
  | cons item items ih =>
      rw [List.forM_cons, bind_eq_ok, List.forall_mem_cons, ← ih]
      constructor
      · rintro ⟨⟨⟩, hitem, hrest⟩
        exact ⟨hitem, hrest⟩
      · rintro ⟨hitem, hrest⟩
        exact ⟨(), hitem, hrest⟩

end Outcomes
