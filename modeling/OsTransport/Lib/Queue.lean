/-
  Queues shared by several keys.

  A queue is a list served from the front, but a consumer may only take the first element that
  MATCHES: `popFirst p` removes the first element satisfying `p` and keeps the order of the
  rest.  What one key sees of a shared queue is a `filter`; the lemmas below say that taking an
  element of key `q` commutes with looking at the queue through `q` (`popFirst_filter`) and is
  invisible through any other key (`popFirst_filter_other`).

  `serve` is a list of requests taking their elements one after the other; what it takes stays
  taken when requests or elements arrive later (`serve_append`, `serve_longer`), and when a whole
  key is removed (`serve_filter`).
-/
import Mathlib.Data.List.Basic

namespace Queue

variable {α : Type*}

/-! ## Taking the first match

`popFirst` against the operations lists have: filters, maps, appends. -/

/-- Remove the first element satisfying `p`. -/
def popFirst (p : α → Bool) : List α → Option (α × List α)
  | [] => none
  | x :: xs => if p x then some (x, xs) else (popFirst p xs).map fun r => (r.1, x :: r.2)

/-- A successful pop splits the queue around the first match. -/
theorem popFirst_some {p : α → Bool} : ∀ {l : List α} {a : α} {rest : List α},
    popFirst p l = some (a, rest) →
    ∃ l₁ l₂, l = l₁ ++ a :: l₂ ∧ rest = l₁ ++ l₂ ∧ p a = true ∧ ∀ x ∈ l₁, p x = false
  | [], _, _, h => by cases h
  | x :: xs, a, rest, h => by
      rw [popFirst] at h
      by_cases hx : p x = true
      · rw [if_pos hx] at h
        cases h
        exact ⟨[], xs, rfl, rfl, hx, fun _ hy => nomatch hy⟩
      · rw [if_neg hx] at h
        obtain ⟨⟨b, rest'⟩, hpop, heq⟩ := Option.map_eq_some_iff.mp h
        cases heq
        obtain ⟨l₁, l₂, rfl, rfl, hp, hall⟩ := popFirst_some hpop
        refine ⟨x :: l₁, l₂, rfl, rfl, hp, ?_⟩
        intro y hy
        rcases List.mem_cons.mp hy with rfl | hy
        · simpa using hx
        · exact hall y hy

/-- Where the first match is gives the pop. -/
theorem popFirst_split {p : α → Bool} {l₁ l₂ : List α} {a : α} (hbefore : ∀ x ∈ l₁, p x = false)
    (ha : p a = true) : popFirst p (l₁ ++ a :: l₂) = some (a, l₁ ++ l₂) := by
  induction l₁ with
  | nil => exact if_pos ha
  | cons x l₁ ih =>
    rw [List.cons_append, popFirst, if_neg (by rw [hbefore x List.mem_cons_self]; exact Bool.false_ne_true),
      ih fun y hy => hbefore y (List.mem_cons_of_mem _ hy)]
    rfl

theorem popFirst_eq_none {p : α → Bool} : ∀ {l : List α},
    popFirst p l = none ↔ ∀ x ∈ l, p x = false
  | [] => by simp [popFirst]
  | x :: xs => by
      rw [popFirst]
      by_cases hx : p x = true
      · simp [hx]
      · simp [hx, popFirst_eq_none (l := xs)]

/-- Taking an element is invisible to whoever does not look at that element. -/
theorem popFirst_filter_other {p q : α → Bool} {l : List α} {a : α} {rest : List α}
    (h : popFirst p l = some (a, rest)) (hq : q a = false) : rest.filter q = l.filter q := by
  obtain ⟨l₁, l₂, rfl, rfl, -, -⟩ := popFirst_some h
  simp [List.filter_append, hq]

/-- If only elements of key `q` match, the pop is a pop of the queue as `q` sees it. -/
theorem popFirst_filter {p q : α → Bool} (hpq : ∀ x, p x = true → q x = true) :
    ∀ (l : List α), popFirst p (l.filter q) = (popFirst p l).map fun r => (r.1, r.2.filter q)
  | [] => rfl
  | x :: xs => by
      by_cases hx : p x = true
      · simp [popFirst, hx, hpq x hx]
      · by_cases hqx : q x = true
        · rw [List.filter_cons_of_pos hqx, popFirst, popFirst, if_neg hx, if_neg hx,
            popFirst_filter hpq xs]
          cases popFirst p xs <;> simp [hqx]
        · rw [List.filter_cons_of_neg hqx, popFirst, if_neg hx, popFirst_filter hpq xs]
          cases popFirst p xs <;> simp [hqx]

/-- Taking from the images is taking from the list by what the images satisfy. -/
theorem popFirst_map {β : Type*} {p : β → Bool} {f : α → β} : ∀ l : List α,
    popFirst p (l.map f) = (popFirst (fun x => p (f x)) l).map fun r => (f r.1, r.2.map f)
  | [] => rfl
  | x :: xs => by
      rw [List.map_cons, popFirst, popFirst]
      by_cases hx : p (f x) = true
      · rw [if_pos hx, if_pos hx]
        rfl
      · rw [if_neg hx, if_neg hx, popFirst_map xs, Option.map_map, Option.map_map]
        rfl

theorem popFirst_mem {p : α → Bool} {l : List α} {a : α} {rest : List α}
    (h : popFirst p l = some (a, rest)) : a ∈ l ∧ p a = true := by
  obtain ⟨l₁, l₂, rfl, -, hp, -⟩ := popFirst_some h
  exact ⟨by simp, hp⟩

theorem popFirst_rest_subset {p : α → Bool} {l : List α} {a : α} {rest : List α}
    (h : popFirst p l = some (a, rest)) : ∀ x ∈ rest, x ∈ l := by
  obtain ⟨l₁, l₂, rfl, rfl, -, -⟩ := popFirst_some h
  intro x hx
  rcases List.mem_append.mp hx with hx | hx
  · exact List.mem_append_left _ hx
  · exact List.mem_append_right _ (List.mem_cons_of_mem _ hx)

/-- Only what the elements of the queue satisfy matters. -/
theorem popFirst_congr {p p' : α → Bool} {l : List α} (h : ∀ x ∈ l, p x = p' x) :
    popFirst p l = popFirst p' l := by
  induction l with
  | nil => rfl
  | cons x xs ih =>
    rw [popFirst, popFirst, h x List.mem_cons_self,
      ih fun y hy => h y (List.mem_cons_of_mem _ hy)]

/-- With distinct keys, taking the element of a key is removing the key. -/
theorem popFirst_keyed {β : Type*} [DecidableEq β] {key : α → β} {k : β} {l : List α} {a : α}
    {rest : List α} (hnodup : (l.map key).Nodup)
    (h : popFirst (fun x => key x == k) l = some (a, rest)) :
    key a = k ∧ rest = l.filter fun x => key x != k := by
  obtain ⟨l₁, l₂, rfl, rfl, ha, hbefore⟩ := popFirst_some h
  have ha : key a = k := eq_of_beq ha
  rw [List.map_append, List.map_cons] at hnodup
  have hafter : ∀ x ∈ l₂, (key x != k) = true := by
    intro x hx
    rw [bne_iff_ne, ← ha]
    rintro heq
    have hnotin := (List.nodup_cons.mp (List.nodup_append.mp hnodup).2.1).1
    exact hnotin (heq ▸ List.mem_map_of_mem hx)
  have hbefore' : ∀ x ∈ l₁, (key x != k) = true := by
    intro x hx
    rw [bne, hbefore x hx]
    rfl
  refine ⟨ha, ?_⟩
  rw [List.filter_append, List.filter_cons_of_neg (by simp [ha]), List.filter_eq_self.mpr hbefore',
    List.filter_eq_self.mpr hafter]

/-- A key nobody has removes nothing. -/
theorem filter_of_popFirst_none {β : Type*} [DecidableEq β] {key : α → β} {k : β} {l : List α}
    (h : popFirst (fun x => key x == k) l = none) : (l.filter fun x => key x != k) = l := by
  apply List.filter_eq_self.mpr
  intro x hx
  rw [bne, popFirst_eq_none.mp h x hx]
  rfl

theorem popFirst_append_some {p : α → Bool} {l : List α} {a : α} {rest : List α} (l' : List α)
    (h : popFirst p l = some (a, rest)) : popFirst p (l ++ l') = some (a, rest ++ l') := by
  induction l generalizing rest with
  | nil => cases h
  | cons x xs ih =>
    rw [List.cons_append, popFirst]
    rw [popFirst] at h
    by_cases hx : p x = true
    · rw [if_pos hx] at h ⊢
      cases h
      rfl
    · rw [if_neg hx] at h ⊢
      obtain ⟨⟨b, rest'⟩, hpop, heq⟩ := Option.map_eq_some_iff.mp h
      cases heq
      rw [ih hpop]
      rfl

theorem popFirst_append_none {p : α → Bool} {l : List α} (l' : List α) (h : popFirst p l = none) :
    popFirst p (l ++ l') = (popFirst p l').map fun r => (r.1, l ++ r.2) := by
  induction l with
  | nil =>
    cases hl : popFirst p l' with
    | none => rw [List.nil_append, hl]; rfl
    | some r => rw [List.nil_append, hl]; rfl
  | cons x xs ih =>
    have hall := popFirst_eq_none.mp h
    have hx : ¬ p x = true := by simp [hall x List.mem_cons_self]
    have hxs : popFirst p xs = none :=
      popFirst_eq_none.mpr fun y hy => hall y (List.mem_cons_of_mem _ hy)
    rw [List.cons_append, popFirst, if_neg hx, ih hxs, Option.map_map]
    rfl

/-! ## Serving requests one after the other

The requests are served in their order, each by the first element left that matches it; one that
finds none is dropped. -/

variable {β : Type*}

/-- What the requests `bs` take from the queue, each the first element that matches it, and what is
    left of the queue. -/
def serve (m : β → α → Bool) : List α → List β → List α × List α
  | queue, [] => ([], queue)
  | queue, b :: bs =>
    match popFirst (m b) queue with
    | some (a, rest) => (a :: (serve m rest bs).1, (serve m rest bs).2)
    | none => serve m queue bs

section Serve

variable {m : β → α → Bool} {a : α} {b : β}

theorem serve_cons_some {queue rest : List α} (bs : List β)
    (h : popFirst (m b) queue = some (a, rest)) :
    serve m queue (b :: bs) = (a :: (serve m rest bs).1, (serve m rest bs).2) := by
  rw [serve, h]

theorem serve_cons_none {queue : List α} (bs : List β) (h : popFirst (m b) queue = none) :
    serve m queue (b :: bs) = serve m queue bs := by
  rw [serve, h]

/-- Later requests are served from what the earlier ones leave. -/
theorem serve_append (queue : List α) (bs bs' : List β) :
    serve m queue (bs ++ bs') = ((serve m queue bs).1 ++ (serve m (serve m queue bs).2 bs').1,
      (serve m (serve m queue bs).2 bs').2) := by
  induction bs generalizing queue with
  | nil => rfl
  | cons b bs ih =>
    rw [List.cons_append]
    cases h : popFirst (m b) queue with
    | none => rw [serve_cons_none _ h, serve_cons_none _ h, ih]
    | some r => rw [serve_cons_some _ h, serve_cons_some _ h, ih]; rfl

theorem serve_subset {queue : List α} {bs : List β} (ha : a ∈ (serve m queue bs).1) : a ∈ queue := by
  induction bs generalizing queue with
  | nil => cases ha
  | cons b bs ih =>
    cases h : popFirst (m b) queue with
    | none =>
      rw [serve_cons_none _ h] at ha
      exact ih ha
    | some r =>
      rw [serve_cons_some _ h] at ha
      rcases List.mem_cons.mp ha with rfl | ha
      · exact (popFirst_mem h).1
      · exact popFirst_rest_subset h _ (ih ha)

/-- What is taken is also taken when the queue is longer. -/
theorem serve_longer {queue : List α} {bs : List β} (queue' : List α)
    (ha : a ∈ (serve m queue bs).1) : a ∈ (serve m (queue ++ queue') bs).1 := by
  induction bs generalizing queue queue' with
  | nil => cases ha
  | cons b bs ih =>
    cases h : popFirst (m b) queue with
    | some r =>
      rw [serve_cons_some _ h] at ha
      rw [serve_cons_some _ (popFirst_append_some queue' h)]
      rcases List.mem_cons.mp ha with rfl | ha
      · exact List.mem_cons_self
      · exact List.mem_cons_of_mem _ (ih queue' ha)
    | none =>
      rw [serve_cons_none _ h] at ha
      have happend := popFirst_append_none queue' h
      cases h' : popFirst (m b) queue' with
      | none =>
        rw [h'] at happend
        rw [serve_cons_none _ happend]
        exact ih queue' ha
      | some r =>
        rw [h'] at happend
        rw [serve_cons_some _ happend]
        exact List.mem_cons_of_mem _ (ih r.2 ha)

/-- Removing whole keys, elements and requests alike, leaves what the others take. -/
theorem serve_filter {k : α → Bool} {k' : β → Bool} (hk : ∀ b a, m b a = true → k' b = k a)
    (queue : List α) (bs : List β) :
    (serve m (queue.filter k) (bs.filter k')).1 = (serve m queue bs).1.filter k := by
  induction bs generalizing queue with
  | nil => rfl
  | cons b bs ih =>
    cases hb : k' b with
    | false =>
      rw [List.filter_cons_of_neg (by rw [hb]; simp)]
      cases h : popFirst (m b) queue with
      | none => rw [serve_cons_none _ h, ih]
      | some r =>
        have hr : k r.1 = false := by
          rw [← hk b r.1 (popFirst_mem h).2, hb]
        rw [serve_cons_some _ h, List.filter_cons_of_neg (by rw [hr]; simp), ← ih,
          popFirst_filter_other h hr]
    | true =>
      rw [List.filter_cons_of_pos hb]
      have hfilter := popFirst_filter (p := m b) (q := k)
        (fun x hx => (hk b x hx).symm.trans hb) queue
      cases h : popFirst (m b) queue with
      | none =>
        rw [h] at hfilter
        rw [serve_cons_none _ hfilter, serve_cons_none _ h, ih]
      | some r =>
        rw [h] at hfilter
        have hr : k r.1 = true := (hk b r.1 (popFirst_mem h).2).symm.trans hb
        rw [serve_cons_some _ hfilter, serve_cons_some _ h, List.filter_cons_of_pos hr, ih]

end Serve

end Queue
