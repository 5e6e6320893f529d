/-
  A table searched from the front.

  The entry of a key is the FIRST one that carries it; it is changed in place, and a new key is added
  at the end.  `updateFirst p f` changes the first entry satisfying `p`.  Looking it up afterwards
  gives the changed entry (`find_updateFirst`), every other look-up is unaffected
  (`find_updateFirst_other`), and what `f` leaves alone is left alone throughout
  (`map_updateFirst`).
-/
import Mathlib.Data.List.Basic

namespace Slots

variable {α β : Type*}

/-- Change the first element satisfying `p`. -/
def updateFirst (p : α → Bool) (f : α → α) : List α → List α
  | [] => []
  | x :: xs => if p x then f x :: xs else x :: updateFirst p f xs

variable {p q : α → Bool} {f : α → α}

theorem map_updateFirst (g : α → β) (hg : ∀ x, g (f x) = g x) :
    ∀ l : List α, (updateFirst p f l).map g = l.map g
  | [] => rfl
  | x :: xs => by
      rw [updateFirst]
      by_cases hx : p x = true
      · rw [if_pos hx, List.map_cons, List.map_cons, hg]
      · rw [if_neg hx, List.map_cons, List.map_cons, map_updateFirst g hg xs]

theorem find_updateFirst (hf : ∀ x, p (f x) = p x) :
    ∀ l : List α, (updateFirst p f l).find? p = (l.find? p).map f
  | [] => rfl
  | x :: xs => by
      rw [updateFirst]
      by_cases hx : p x = true
      · rw [if_pos hx, List.find?_cons_of_pos (by rw [hf]; exact hx), List.find?_cons_of_pos hx]
        rfl
      · rw [if_neg hx, List.find?_cons_of_neg hx, List.find?_cons_of_neg hx]
        exact find_updateFirst hf xs

theorem find_updateFirst_other (hf : ∀ x, q (f x) = q x) (hpq : ∀ x, p x = true → q x = false) :
    ∀ l : List α, (updateFirst p f l).find? q = l.find? q
  | [] => rfl
  | x :: xs => by
      rw [updateFirst]
      by_cases hx : p x = true
      · have hq : ¬ q x = true := by simp [hpq x hx]
        rw [if_pos hx, List.find?_cons_of_neg (by rw [hf]; exact hq), List.find?_cons_of_neg hq]
      · rw [if_neg hx]
        by_cases hq : q x = true
        · rw [List.find?_cons_of_pos hq, List.find?_cons_of_pos hq]
        · rw [List.find?_cons_of_neg hq, List.find?_cons_of_neg hq]
          exact find_updateFirst_other hf hpq xs

theorem mem_updateFirst {y : α} : ∀ {l : List α}, y ∈ updateFirst p f l → y ∈ l ∨ ∃ x ∈ l, y = f x
  | [], h => by cases h
  | x :: xs, h => by
      rw [updateFirst] at h
      split at h
      · rcases List.mem_cons.mp h with rfl | h
        · exact .inr ⟨x, List.mem_cons_self, rfl⟩
        · exact .inl (List.mem_cons_of_mem _ h)
      · rcases List.mem_cons.mp h with rfl | h
        · exact .inl List.mem_cons_self
        · rcases mem_updateFirst h with h | ⟨z, hz, rfl⟩
          · exact .inl (List.mem_cons_of_mem _ h)
          · exact .inr ⟨z, List.mem_cons_of_mem _ hz, rfl⟩

end Slots
