/-
  Totals over a family of which one member changes at a time.

  A family `f : ι → β` may be infinite (one member per worker, per process, per request), with a
  measure `g : β → M` that vanishes on all but finitely many members.  `HasTotal g f m` says that
  the measures add up to `m`.  It is a relation rather than a sum, so that no finiteness has to
  be carried by the family itself: the evidence is in the relation, and an update keeps it.

  `HasTotal.update` is the only rule an invariant proof needs: one member changes, and the total
  moves by the difference.  The measure may be a count (`Nat`), a balance (`Int`) or a bag of
  elements (`Multiset`); `HasTotal.map` passes from bags to counts.
-/
import Mathlib.Algebra.BigOperators.Ring.Finset
import Mathlib.Algebra.BigOperators.Group.Finset.Piecewise
import Mathlib.Algebra.BigOperators.Group.Finset.Basic
import Mathlib.Algebra.Order.BigOperators.Group.Finset
import Mathlib.Algebra.Order.Monoid.Canonical.Defs

namespace Total

variable {ι β M N : Type*} [DecidableEq ι]

/-- The measures `g` of the members of `f` add up to `m`. -/
def HasTotal [AddCommMonoid M] (g : β → M) (f : ι → β) (m : M) : Prop :=
  ∃ S : Finset ι, (∀ i, i ∉ S → g (f i) = 0) ∧ ∑ i ∈ S, g (f i) = m

section Basic

variable [AddCommMonoid M] [AddCommMonoid N] {g : β → M} {f : ι → β} {m m' : M}

omit [DecidableEq ι] in
theorem HasTotal.zero (h : ∀ i, g (f i) = 0) : HasTotal g f 0 :=
  ⟨∅, fun i _ => h i, rfl⟩

omit [DecidableEq ι] in
theorem HasTotal.congr {γ : Type*} {g' : γ → M} {f' : ι → γ} (h : HasTotal g f m)
    (hf : ∀ i, g' (f' i) = g (f i)) : HasTotal g' f' m := by
  obtain ⟨S, hS, hm⟩ := h
  exact ⟨S, fun i hi => (hf i).trans (hS i hi), (Finset.sum_congr rfl fun i _ => hf i).trans hm⟩

omit [DecidableEq ι] in
/-- A measure that vanishes where another does has a total if the other has one. -/
theorem HasTotal.exists_of_zero {g' : β → N} (h : HasTotal g f m)
    (hg : ∀ b, g b = 0 → g' b = 0) : ∃ n, HasTotal g' f n := by
  obtain ⟨S, hS, -⟩ := h
  exact ⟨_, S, fun i hi => hg _ (hS i hi), rfl⟩

/-- The support may be enlarged. -/
theorem HasTotal.enlarge (h : HasTotal g f m) (T : Finset ι) :
    ∃ S, T ⊆ S ∧ (∀ i, i ∉ S → g (f i) = 0) ∧ ∑ i ∈ S, g (f i) = m := by
  obtain ⟨S, hS, hm⟩ := h
  refine ⟨T ∪ S, Finset.subset_union_left, ?_, ?_⟩
  · intro i hi
    exact hS i fun hiS => hi (Finset.mem_union_right _ hiS)
  · rw [← hm]
    exact (Finset.sum_subset Finset.subset_union_right fun i _ hi => hS i hi).symm

theorem HasTotal.unique (h : HasTotal g f m) (h' : HasTotal g f m') : m = m' := by
  obtain ⟨T, hT, hm'⟩ := h'
  obtain ⟨S, hTS, -, hm⟩ := h.enlarge T
  rw [← hm, ← hm']
  exact (Finset.sum_subset hTS fun i _ hi => hT i hi).symm

/-- Two measures of one family add up. -/
theorem HasTotal.add {g' : β → M} (h : HasTotal g f m) (h' : HasTotal g' f m') :
    HasTotal (fun b => g b + g' b) f (m + m') := by
  obtain ⟨T, hT, rfl⟩ := h'
  obtain ⟨S, hTS, hS, rfl⟩ := h.enlarge T
  refine ⟨S, fun i hi => ?_, ?_⟩
  · show g (f i) + g' (f i) = 0
    rw [hS i hi, hT i fun hiT => hi (hTS hiT), add_zero]
  · rw [Finset.sum_add_distrib]
    congr 1
    exact (Finset.sum_subset hTS fun i _ hi => hT i hi).symm

omit [DecidableEq ι] in
/-- A total may be measured through a homomorphism. -/
theorem HasTotal.map (φ : M →+ N) (h : HasTotal g f m) : HasTotal (fun b => φ (g b)) f (φ m) := by
  obtain ⟨S, hS, rfl⟩ := h
  refine ⟨S, fun i hi => ?_, (map_sum φ _ S).symm⟩
  exact (congrArg φ (hS i hi)).trans (map_zero φ)

omit [DecidableEq ι] in
/-- A total of natural numbers that was taken in the integers is a natural number. -/
theorem HasTotal.natCast {g : β → Nat} {f : ι → β} {m : Int}
    (h : HasTotal (fun b => (g b : Int)) f m) : ∃ n : Nat, HasTotal g f n ∧ m = n := by
  obtain ⟨S, hS, rfl⟩ := h
  exact ⟨_, ⟨S, fun i hi => Int.natCast_eq_zero.mp (hS i hi), rfl⟩, (Nat.cast_sum S _).symm⟩

/-- One member apart from the rest, and the total with another in its place. -/
theorem HasTotal.replace (h : HasTotal g f m) (i : ι) :
    ∃ rest, m = rest + g (f i) ∧ ∀ v, HasTotal g (Function.update f i v) (rest + g v) := by
  obtain ⟨S, hiS, hS, rfl⟩ := h.enlarge {i}
  have hi : i ∈ S := hiS (Finset.mem_singleton_self i)
  refine ⟨∑ j ∈ S.erase i, g (f j), (Finset.sum_erase_add S _ hi).symm, fun v => ⟨S, ?_, ?_⟩⟩
  · intro j hj
    rw [Function.update_of_ne (by rintro rfl; exact hj hi)]
    exact hS j hj
  · have hrest : ∑ j ∈ S.erase i, g (Function.update f i v j) = ∑ j ∈ S.erase i, g (f j) := by
      refine Finset.sum_congr rfl fun j hj => ?_
      rw [Function.update_of_ne (Finset.ne_of_mem_erase hj)]
    rw [← Finset.sum_erase_add S _ hi, hrest, Function.update_self]

/-- A change that keeps the member's measure keeps the total. -/
theorem HasTotal.update_same {i : ι} {v : β} (h : HasTotal g f m) (hv : g v = g (f i)) :
    HasTotal g (Function.update f i v) m := by
  refine h.congr fun j => ?_
  by_cases hj : j = i
  · subst hj; rw [Function.update_self, hv]
  · rw [Function.update_of_ne hj]

end Basic

omit [DecidableEq ι] in
/-- An element of a total bag is in the bag of some member. -/
theorem HasTotal.exists_mem {γ : Type*} {g : β → Multiset γ} {f : ι → β} {m : Multiset γ}
    (h : HasTotal g f m) {a : γ} (ha : a ∈ m) : ∃ i, a ∈ g (f i) := by
  obtain ⟨S, -, rfl⟩ := h
  obtain ⟨i, -, hi⟩ := Multiset.mem_sum.mp ha
  exact ⟨i, hi⟩

section Cancel

variable [AddCancelCommMonoid M] {g : β → M} {f : ι → β} {m m' : M}

/-- When one member changes, the total moves by the difference of its measures. -/
theorem HasTotal.update {i : ι} {v : β} (h : HasTotal g f m) (hm' : m + g v = m' + g (f i)) :
    HasTotal g (Function.update f i v) m' := by
  obtain ⟨rest, rfl, hrest⟩ := h.replace i
  have heq : rest + g v = m' := by
    apply add_right_cancel (b := g (f i))
    rw [← hm', add_assoc, add_assoc, add_comm (g v)]
  rw [← heq]
  exact hrest v

end Cancel

section Order

variable [AddCommMonoid M] [PartialOrder M] [IsOrderedAddMonoid M] [CanonicallyOrderedAdd M]
  {g : β → M} {f : ι → β} {m : M}

omit [DecidableEq ι] [CanonicallyOrderedAdd M] in
theorem HasTotal.nonpos (h : HasTotal g f m) (hf : ∀ i, g (f i) ≤ 0) : m ≤ 0 := by
  obtain ⟨S, -, rfl⟩ := h
  exact Finset.sum_nonpos fun i _ => hf i

/-- A member measures at most the total. -/
theorem HasTotal.le (h : HasTotal g f m) (i : ι) : g (f i) ≤ m := by
  obtain ⟨S, hiS, -, rfl⟩ := h.enlarge {i}
  exact Finset.single_le_sum (f := fun j => g (f j)) (fun _ _ => zero_le)
    (hiS (Finset.mem_singleton_self i))

omit [IsOrderedAddMonoid M] in
/-- So do two of them together. -/
theorem HasTotal.add_le (h : HasTotal g f m) {i j : ι} (hij : i ≠ j) : g (f i) + g (f j) ≤ m := by
  obtain ⟨S, hS, -, rfl⟩ := h.enlarge {i, j}
  rw [← Finset.sum_pair (f := fun k => g (f k)) hij]
  exact Finset.sum_le_sum_of_subset hS

end Order

end Total
