import Mathlib.Data.Finset.Card
import Mathlib.Data.Fintype.Card
import Mathlib.Logic.Function.Basic

/-!
# Reference Counts

An object shared by finitely many parties, each of which holds one reference and drops it
once. The references are counted; the party that counts down from one takes the steps of the
release, one after the other, while the others may still be on their way.

## Main results

* `Inv.of_drop`: the invariant of a step.
* `Inv.released_of_holding`: nothing is released while a party holds a reference.
* `Inv.refs_eq_zero`: without references the object is released, or a party is at it.
-/

namespace RefCount

variable {ι : Type*}

/-- Where a party stands: it holds its reference, is in front of a step of the release, or is
done. -/
inductive Place
  | holding
  | releasing (n : ℕ)
  | gone
  deriving DecidableEq, Repr

/-- The count, the parties, and how many steps of the release have been taken. -/
structure Shared (ι : Type*) where
  refs : ℤ
  place : ι → Place
  released : ℕ

section

variable [DecidableEq ι]

/-- One party goes on; the release has `total` steps. -/
def drop (total : ℕ) (s : Shared ι) (i : ι) : Option (Shared ι) :=
  match s.place i with
  | .holding =>
      some { s with
        refs := s.refs - 1
        place := Function.update s.place i (if s.refs = 1 then .releasing 0 else .gone) }
  | .releasing n =>
      some { s with
        place := Function.update s.place i (if n + 1 < total then .releasing (n + 1) else .gone)
        released := s.released + 1 }
  | .gone => none

/-- A party that holds a reference drops it, and has to release the object if it was the
last. -/
theorem drop_of_holding {total : ℕ} {s : Shared ι} {i : ι} (h : s.place i = .holding) :
    drop total s i = some ⟨s.refs - 1,
      Function.update s.place i (if s.refs = 1 then .releasing 0 else .gone), s.released⟩ := by
  rw [drop, h]

/-- A party that releases the object takes the next step of the release. -/
theorem drop_of_releasing {total : ℕ} {s : Shared ι} {i : ι} {n : ℕ}
    (h : s.place i = .releasing n) :
    drop total s i = some ⟨s.refs, Function.update s.place i
      (if n + 1 < total then .releasing (n + 1) else .gone), s.released + 1⟩ := by
  rw [drop, h]

/-- A party that goes on leaves the places of the others. -/
theorem place_of_drop {total : ℕ} {s s' : Shared ι} {i j : ι} (h : drop total s i = some s')
    (hj : j ≠ i) : s'.place j = s.place j := by
  rw [drop] at h
  split at h
  · obtain rfl := Option.some.inj h
    exact Function.update_of_ne hj _ _
  · obtain rfl := Option.some.inj h
    exact Function.update_of_ne hj _ _
  · exact absurd h (by simp)

end

variable [Fintype ι]

/-- The parties that hold a reference. -/
def holders (s : Shared ι) : Finset ι := Finset.univ.filter fun i => s.place i = .holding

/-- The holders are the parties that hold a reference. -/
theorem mem_holders {s : Shared ι} {i : ι} : i ∈ holders s ↔ s.place i = .holding := by
  rw [holders, Finset.mem_filter]
  exact and_iff_right (Finset.mem_univ i)

/-- All parties hold their references. -/
def start : Shared ι := ⟨Fintype.card ι, fun _ => .holding, 0⟩

/-- The references are counted, and one party at most is at the release. -/
structure Inv (total : ℕ) (s : Shared ι) : Prop where
  refs_eq : s.refs = (holders s).card
  released_of_holding : ∀ i, s.place i = .holding → s.released = 0
  of_releasing : ∀ i n, s.place i = .releasing n →
    n < total ∧ s.released = n ∧ ∀ j, j ≠ i → s.place j = .gone
  released_of_gone : (∀ i, s.place i = .gone) → s.released = total

/-- In the beginning every party holds a reference, and nothing has been released. -/
theorem inv_start [Nonempty ι] (total : ℕ) : Inv total (start : Shared ι) where
  refs_eq := by
    have hall : holders (start : Shared ι) = Finset.univ :=
      Finset.filter_true_of_mem fun _ _ => rfl
    rw [hall, Finset.card_univ]
    rfl
  released_of_holding _ _ := rfl
  of_releasing _ _ h := nomatch h
  released_of_gone h := nomatch h (Classical.arbitrary ι)

section

variable {total : ℕ} {s s' : Shared ι} {i : ι}

/-- The last holder is alone: the others are done. A second one that holds would be
counted, and one that releases does so when no other holds. -/
theorem Inv.gone_of_refs_eq_one (h : Inv total s) (hi : s.place i = .holding) (hone : s.refs = 1)
    {j : ι} (hj : j ≠ i) : s.place j = .gone := by
  cases hplace : s.place j with
  | gone => rfl
  | holding =>
      have hcard : (holders s).card = 1 := by
        have := h.refs_eq
        omega
      have hsame := Finset.card_le_one.mp hcard.le _ (mem_holders.mpr hplace) _
        (mem_holders.mpr hi)
      exact absurd hsame hj
  | releasing n =>
      have hgone := (h.of_releasing j n hplace).2.2 i hj.symm
      rw [hi] at hgone
      exact nomatch hgone

/-- Without references the object is released, or a party is at it. -/
theorem Inv.refs_eq_zero (h : Inv total s) (hzero : s.refs = 0) :
    s.released = total ∨ ∃ i n, s.place i = .releasing n := by
  by_cases hreleasing : ∃ i n, s.place i = .releasing n
  · exact .inr hreleasing
  · refine .inl (h.released_of_gone fun i => ?_)
    cases hplace : s.place i with
    | gone => rfl
    | holding =>
        have hpos := Finset.card_pos.mpr ⟨i, mem_holders.mpr hplace⟩
        have := h.refs_eq
        omega
    | releasing n => exact absurd ⟨i, n, hplace⟩ hreleasing

variable [DecidableEq ι]

/-- The holders when one party is no longer among them: they are one less. -/
theorem card_holders_update {place : Place} (hplace : place ≠ .holding)
    (hi : s.place i = .holding) (refs : ℤ) (released : ℕ) :
    (holders ⟨refs, Function.update s.place i place, released⟩).card + 1 = (holders s).card := by
  have hholders : holders ⟨refs, Function.update s.place i place, released⟩ =
      (holders s).erase i := by
    ext j
    rw [mem_holders, Finset.mem_erase, mem_holders]
    dsimp only
    by_cases hj : j = i
    · subst hj
      rw [Function.update_self]
      exact iff_of_false hplace fun h => h.1 rfl
    · rw [Function.update_of_ne hj]
      exact (and_iff_right hj).symm
  rw [hholders]
  exact Finset.card_erase_add_one (mem_holders.mpr hi)

/-- The last reference is dropped: the release begins. Everybody else is gone by then,
since the count is the number of the holders. -/
theorem Inv.of_last (htotal : 0 < total) (h : Inv total s) (hi : s.place i = .holding)
    (hone : s.refs = 1) :
    Inv total ⟨s.refs - 1, Function.update s.place i (.releasing 0), s.released⟩ where
  refs_eq := by
    have hcard := @card_holders_update _ _ s i _ (.releasing 0) nofun hi (s.refs - 1)
      s.released
    have := h.refs_eq
    dsimp only
    omega
  released_of_holding _ _ := h.released_of_holding i hi
  of_releasing j n hj := by
    by_cases hji : j = i
    · subst hji
      obtain rfl := Place.releasing.inj ((Function.update_self j _ s.place).symm.trans hj)
      refine ⟨htotal, h.released_of_holding j hi, fun k hk => ?_⟩
      exact (Function.update_of_ne hk _ _).trans (h.gone_of_refs_eq_one hi hone hk)
    · exact nomatch (h.gone_of_refs_eq_one hi hone hji).symm.trans
        ((Function.update_of_ne hji _ _).symm.trans hj)
  released_of_gone hall := nomatch (Function.update_self i _ s.place).symm.trans (hall i)

/-- A reference is dropped that is not the last one. Somebody else still holds one, so
nothing has been released. -/
theorem Inv.of_not_last (h : Inv total s) (hi : s.place i = .holding) (hone : s.refs ≠ 1) :
    Inv total ⟨s.refs - 1, Function.update s.place i .gone, s.released⟩ where
  refs_eq := by
    have hcard := @card_holders_update _ _ s i _ .gone nofun hi (s.refs - 1) s.released
    have := h.refs_eq
    dsimp only
    omega
  released_of_holding _ _ := h.released_of_holding i hi
  of_releasing j n hj := by
    by_cases hji : j = i
    · subst hji
      exact nomatch (Function.update_self j _ s.place).symm.trans hj
    · have hplace := (Function.update_of_ne hji _ _).symm.trans hj
      exact nomatch hi.symm.trans ((h.of_releasing j n hplace).2.2 i (Ne.symm hji))
  released_of_gone hall := by
    have hcard := @card_holders_update _ _ s i _ .gone nofun hi (s.refs - 1) s.released
    have hrefs := h.refs_eq
    have hpos : 0 < (holders ⟨s.refs - 1, Function.update s.place i .gone, s.released⟩).card := by
      omega
    obtain ⟨j, hj⟩ := Finset.card_pos.mp hpos
    exact nomatch (mem_holders.mp hj).symm.trans (hall j)

/-- At the release nobody holds a reference. -/
theorem Inv.ne_holding (h : Inv total s) {n : ℕ} (hi : s.place i = .releasing n) (j : ι) :
    s.place j ≠ .holding := by
  intro hj
  by_cases hji : j = i
  · subst hji
    exact nomatch hi.symm.trans hj
  · exact nomatch ((h.of_releasing i n hi).2.2 j hji).symm.trans hj

/-- A step of the release is taken. Nobody holds a reference any more, and only the party
that has dropped the last one takes these steps. -/
theorem Inv.of_release (h : Inv total s) {n : ℕ} (hi : s.place i = .releasing n) :
    Inv total ⟨s.refs, Function.update s.place i
      (if n + 1 < total then .releasing (n + 1) else .gone), s.released + 1⟩ := by
  obtain ⟨hn, hreleased, hgone⟩ := h.of_releasing i n hi
  generalize hnext : (if n + 1 < total then Place.releasing (n + 1) else .gone) = next
  have hne : next ≠ .holding := by
    rw [← hnext]
    split <;> exact nofun
  have hother : ∀ {j}, j ≠ i → Function.update s.place i next j = .gone :=
    fun hj => (Function.update_of_ne hj _ _).trans (hgone _ hj)
  have hnobody : ∀ j, Function.update s.place i next j ≠ .holding := by
    intro j
    by_cases hji : j = i
    · subst hji
      rwa [Function.update_self]
    · rw [hother hji]
      exact nofun
  refine ⟨?_, fun j hj => absurd hj (hnobody j), ?_, ?_⟩
  · have hbefore : holders s = ∅ :=
      Finset.eq_empty_of_forall_notMem fun j hj => h.ne_holding hi j (mem_holders.mp hj)
    have hbehind : holders ⟨s.refs, Function.update s.place i next, s.released + 1⟩ = ∅ :=
      Finset.eq_empty_of_forall_notMem fun j hj => hnobody j (mem_holders.mp hj)
    rw [hbehind, ← hbefore]
    exact h.refs_eq
  · intro j m hj
    by_cases hji : j = i
    · subst hji
      dsimp only at hj
      rw [Function.update_self, ← hnext] at hj
      split at hj
      · next hlt =>
          obtain rfl := Place.releasing.inj hj
          exact ⟨hlt, by rw [hreleased], fun k hk => hother hk⟩
      · exact nomatch hj
    · exact nomatch (hother hji).symm.trans hj
  · intro hall
    have hlast := hall i
    dsimp only at hlast ⊢
    rw [Function.update_self, ← hnext] at hlast
    split at hlast
    · exact nomatch hlast
    · omega

/-- **A party that goes on keeps the invariant.** It is the last holder, another holder,
or the one that releases. -/
theorem Inv.of_drop (htotal : 0 < total) (h : Inv total s) (hdrop : drop total s i = some s') :
    Inv total s' := by
  rw [drop] at hdrop
  split at hdrop
  · next hi =>
      obtain rfl := Option.some.inj hdrop
      by_cases hone : s.refs = 1
      · rw [if_pos hone]
        exact h.of_last htotal hi hone
      · rw [if_neg hone]
        exact h.of_not_last hi hone
  · next n hi =>
      obtain rfl := Option.some.inj hdrop
      exact h.of_release hi
  · exact absurd hdrop (by simp)

end

end RefCount
