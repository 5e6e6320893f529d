/-
  Resources under reusable names.

  A process asks for a resource and is given a NAME for it (a descriptor, an index, an address) that
  nobody holds at that time; once released, the name may be given out again.  So "every resource
  is released exactly once" cannot be said of names.  `Handles` numbers the acquisitions: each name
  held knows the acquisition it stems from, and a release writes that number down.

  `Sound` is the ledger.  `Sound.acquire` and `Sound.release` keep it, a release on the one condition
  that the name is held; `Sound.once` reads it: an acquisition is held, or has been released once.
-/
import OsTransport.Lib.Queue
import Mathlib.Data.List.Count
import Mathlib.Data.List.Perm.Basic
import Mathlib.Data.List.Nodup

/-- What a process holds, and what it has acquired and released. -/
structure Handles (ν : Type*) where
  /-- The names held, each with the number of its acquisition. -/
  held : List (ν × Nat)
  acquired : Nat
  /-- The acquisitions that were released, oldest first. -/
  released : List Nat
  /-- How often a name was released that was not held. -/
  faults : Nat
  deriving DecidableEq

namespace Handles

variable {ν : Type*}

def empty : Handles ν := ⟨[], 0, [], 0⟩

def names (h : Handles ν) : List ν := h.held.map Prod.fst

/-- Acquire a resource under the name `n`, which must not be held. -/
def acquire [DecidableEq ν] (h : Handles ν) (n : ν) : Option (Handles ν) :=
  if n ∈ h.names then none
  else some { h with held := (n, h.acquired) :: h.held, acquired := h.acquired + 1 }

/-- Release what is held under the name `n`. -/
def release [DecidableEq ν] (h : Handles ν) (n : ν) : Handles ν :=
  match Queue.popFirst (fun x => x.1 == n) h.held with
  | none => { h with faults := h.faults + 1 }
  | some (x, held) => { h with held, released := h.released ++ [x.2] }

/-- The books balance: every acquisition is held or was released, and only one of the two. -/
structure Sound (h : Handles ν) : Prop where
  nodup : h.names.Nodup
  serials : (h.held.map Prod.snd ++ h.released).Perm (List.range h.acquired)
  faults : h.faults = 0

theorem sound_empty : (empty : Handles ν).Sound := ⟨List.nodup_nil, List.Perm.refl _, rfl⟩

section Rules

variable [DecidableEq ν] {h h' : Handles ν} {n : ν}

theorem Sound.acquire (hs : h.Sound) (ha : h.acquire n = some h') :
    h'.Sound ∧ h'.names = n :: h.names := by
  unfold Handles.acquire at ha
  split at ha
  · cases ha
  · rename_i hn
    cases ha
    refine ⟨⟨List.nodup_cons.mpr ⟨hn, hs.nodup⟩, ?_, hs.faults⟩, rfl⟩
    rw [List.range_succ]
    exact (hs.serials.cons h.acquired).trans (List.perm_append_singleton _ _).symm

theorem Sound.release (hs : h.Sound) (hn : n ∈ h.names) :
    (h.release n).Sound ∧ (n :: (h.release n).names).Perm h.names := by
  cases hpop : Queue.popFirst (fun x : ν × Nat => x.1 == n) h.held with
  | none =>
    exfalso
    obtain ⟨x, hx, rfl⟩ := List.mem_map.mp hn
    have hno := Queue.popFirst_eq_none.mp hpop x hx
    simp at hno
  | some r =>
    obtain ⟨x, held⟩ := r
    obtain ⟨l₁, l₂, hheld, rfl, hx, -⟩ := Queue.popFirst_some hpop
    obtain rfl : x.1 = n := beq_iff_eq.mp hx
    have hrelease : h.release x.1 = { h with held := l₁ ++ l₂, released := h.released ++ [x.2] } := by
      simp only [Handles.release, hpop]
    have hperm : h.held.Perm (x :: (l₁ ++ l₂)) := by
      rw [hheld]
      exact List.perm_middle
    have hnames : (x.1 :: (l₁ ++ l₂).map Prod.fst).Perm h.names := (hperm.map Prod.fst).symm
    rw [hrelease]
    refine ⟨⟨?_, ?_, hs.faults⟩, hnames⟩
    · exact (List.nodup_cons.mp (hnames.nodup_iff.mpr hs.nodup)).2
    · refine List.Perm.trans ?_ hs.serials
      -- the number moves from the held ones to the released ones
      have hserials : (h.held.map Prod.snd).Perm (x.2 :: (l₁ ++ l₂).map Prod.snd) := hperm.map Prod.snd
      refine List.Perm.trans ?_ (hserials.append_right h.released).symm
      rw [← List.append_assoc]
      exact List.perm_append_singleton _ _

omit [DecidableEq ν] in
/-- Every acquisition is held and was never released, or is not held and was released once. -/
theorem Sound.once (hs : h.Sound) {k : Nat} (hk : k < h.acquired) :
    (∃ n, (n, k) ∈ h.held) ∧ h.released.count k = 0 ∨
      (∀ n, (n, k) ∉ h.held) ∧ h.released.count k = 1 := by
  have hcount : (h.held.map Prod.snd).count k + h.released.count k = 1 := by
    rw [← List.count_append, hs.serials.count_eq]
    exact List.count_eq_one_of_mem List.nodup_range (List.mem_range.mpr hk)
  by_cases hheld : k ∈ h.held.map Prod.snd
  · left
    have hpos := List.count_pos_iff.mpr hheld
    obtain ⟨⟨n, k'⟩, hx, rfl⟩ := List.mem_map.mp hheld
    exact ⟨⟨n, hx⟩, by omega⟩
  · right
    have hzero := List.count_eq_zero.mpr hheld
    exact ⟨fun n hn => hheld (List.mem_map.mpr ⟨_, hn, rfl⟩), by omega⟩

end Rules

end Handles
