/-
  Singly linked lists in a heap.

  A list is a head, a tail and a count beside a chain of cells, and is changed in place: the cell
  before a removed one is redirected, or the head, and the tail is moved back if it was the one
  removed.  `Holds` says that the chain from the head is a given list of addresses and values, that
  no cell occurs twice and that the tail is the last one.

  A step that follows a pointer is undefined if nothing is allocated there, and a loop that has
  not ended after a given number of rounds has no result either; both are `none`.  The rules below
  (`link_spec`, `pushBack_spec`, `popFront_spec`, `popWhere_spec`, `removeWhere_spec`,
  `clear_spec`) say that from a list that `Holds` there always is a result, and which list it
  holds.  What carries the two loops is that `prev` is the last cell of what was passed and
  `curr` the first of what is left.

  The layers:

  1. `Seg`, a piece of a chain: where it starts, the cells it has, and where it goes on.  Pieces are
     cut and joined (`seg_append`), survive edits elsewhere (`Seg.congr`) and are redirected at
     their end (`Seg.redirect`);
  2. `Holds`, a whole list: a chain to nowhere, the tail and the count beside it;
  3. a rule for each operation, the loops by induction on what is left.  Unlinking is one lemma with
     three cases, the head, the middle and the tail (`unlink_spec`);
  4. `Represents` forgets the addresses: a list in memory and the list of its values.  It is what a
     client states, and `Carries` with its rules is what it proves along a run.
-/
import OsTransport.Lib.Queue
import Mathlib.Algebra.Group.Nat.Defs
import Mathlib.Data.List.Nodup
import Mathlib.Logic.Function.Basic

namespace Linked

variable {ν : Type*} {w : Nat}

/-! ## The heap

A heap is a partial map from addresses to cells.  What is not allocated cannot be followed, stored
to, or freed. -/

abbrev Addr := Nat

structure Cell (ν : Type*) where
  val : ν
  next : Option Addr

/-- The allocated cells. -/
abbrev Heap (ν : Type*) := Addr → Option (Cell ν)

def store (h : Heap ν) (a : Addr) (c : Cell ν) : Heap ν := Function.update h a (some c)

def free (h : Heap ν) (a : Addr) : Heap ν := Function.update h a none

/-- `a->next = next`. -/
def setNext (h : Heap ν) (a : Addr) (next : Option Addr) : Option (Heap ν) :=
  (h a).map fun c => store h a { c with next }

variable {h h' : Heap ν} {a b : Addr} {v : ν} {p q m : Option Addr} {l l₁ l₂ : List (Addr × ν)}

theorem store_self {c : Cell ν} : store h a c a = some c := Function.update_self ..

theorem store_of_ne {c : Cell ν} (hne : b ≠ a) : store h a c b = h b := Function.update_of_ne hne ..

theorem free_of_ne (hne : b ≠ a) : free h a b = h b := Function.update_of_ne hne ..

/-! ## Chains

`Seg h p l q`: from `p` the pointers lead through the cells of `l` to `q`.  Segments split and join
as their lists do, and do not depend on what is outside of them. -/

/-- From pointer `p` to pointer `q` the chain runs through the cells of `l`. -/
def Seg (h : Heap ν) : Option Addr → List (Addr × ν) → Option Addr → Prop
  | p, [], q => p = q
  | p, (a, v) :: l, q => p = some a ∧ ∃ next, h a = some ⟨v, next⟩ ∧ Seg h next l q

def addrs (l : List (Addr × ν)) : List Addr := l.map Prod.fst

def firstAddr (l : List (Addr × ν)) : Option Addr := (addrs l).head?

def lastAddr (l : List (Addr × ν)) : Option Addr := (addrs l).getLast?

theorem addrs_append : addrs (l₁ ++ l₂) = addrs l₁ ++ addrs l₂ := List.map_append

/-- The last cell is the one appended last. -/
theorem lastAddr_concat : lastAddr (l ++ [(a, v)]) = some a := by
  rw [lastAddr, addrs_append]
  exact List.getLast?_concat

theorem seg_append : ∀ {l₁ : List (Addr × ν)} {p : Option Addr},
    Seg h p (l₁ ++ l₂) q ↔ ∃ m, Seg h p l₁ m ∧ Seg h m l₂ q
  | [], p => ⟨fun hs => ⟨p, rfl, hs⟩, fun ⟨_, heq, hs⟩ => by rw [show p = _ from heq]; exact hs⟩
  | (a, v) :: l₁, p => by
      constructor
      · rintro ⟨hp, next, ha, hs⟩
        obtain ⟨m, h₁, h₂⟩ := seg_append.mp hs
        exact ⟨m, ⟨hp, next, ha, h₁⟩, h₂⟩
      · rintro ⟨m, ⟨hp, next, ha, h₁⟩, h₂⟩
        exact ⟨hp, next, ha, seg_append.mpr ⟨m, h₁, h₂⟩⟩

/-- A chain depends on its own cells only. -/
theorem Seg.congr : ∀ {l : List (Addr × ν)} {p : Option Addr}, Seg h p l q →
    (∀ a ∈ addrs l, h' a = h a) → Seg h' p l q
  | [], _, hs, _ => hs
  | (a, v) :: l, p, ⟨hp, next, ha, hs⟩, hsame => by
      refine ⟨hp, next, ?_, hs.congr fun b hb => hsame b (List.mem_cons_of_mem _ hb)⟩
      rw [hsame a List.mem_cons_self]
      exact ha

/-- The cells of a segment are allocated. -/
theorem Seg.allocated : ∀ {l : List (Addr × ν)} {p : Option Addr}, Seg h p l q →
    ∀ a ∈ addrs l, h a ≠ none
  | (b, v) :: l, p, ⟨_, next, hb, hs⟩, a, ha => by
      rcases List.mem_cons.mp ha with rfl | ha
      · rw [hb]
        exact Option.some_ne_none _
      · exact hs.allocated a ha

/-- The pointer to a chain that ends with NULL is its first cell. -/
theorem Seg.first (hs : Seg h p l none) : p = firstAddr l := by
  cases l with
  | nil => exact hs
  | cons x l => exact hs.1

/-- Redirecting the last cell redirects the chain. -/
theorem Seg.redirect (hs : Seg h p (l ++ [(a, v)]) m) (hnodup : (addrs (l ++ [(a, v)])).Nodup) :
    Seg (store h a ⟨v, q⟩) p (l ++ [(a, v)]) q := by
  obtain ⟨m', h₁, rfl, next, ha, -⟩ := seg_append.mp hs
  refine seg_append.mpr ⟨some a, h₁.congr ?_, rfl, q, store_self, rfl⟩
  intro b hb
  rw [addrs_append] at hnodup
  have hne : b ≠ a := (List.nodup_append.mp hnodup).2.2 b hb a List.mem_cons_self
  exact store_of_ne hne

/-- The last cell of a segment points where the segment ends. -/
theorem Seg.last (hs : Seg h p (l ++ [(a, v)]) q) : h a = some ⟨v, q⟩ := by
  obtain ⟨m, -, -, next, ha, heq⟩ := seg_append.mp hs
  rw [ha, show next = q from heq]

end Linked

open Linked

/-- A list: its cells are in the heap. -/
structure Linked (w : Nat) (ν : Type*) where
  heap : Heap ν
  head : Option Addr
  tail : Option Addr
  size : BitVec w

namespace Linked

variable {ν : Type*} {w : Nat} {L : Linked w ν} {a : Addr} {v : ν} {l l₁ l₂ : List (Addr × ν)}

/-! ## The operations

Written as loops over pointers, with a fuel.  `unlink` redirects whoever points at the cell, and
moves the tail back if it was the last. -/

/-- An empty list beside whatever else is in the heap. -/
def empty (heap : Heap ν) : Linked w ν := ⟨heap, none, none, 0#w⟩

/-- Hang a chain of `n` cells from `first` to `last` behind the tail. -/
def link (L : Linked w ν) (first last : Addr) (n : BitVec w) : Option (Linked w ν) :=
  match L.tail with
  | some t => (setNext L.heap t (some first)).map fun heap =>
      { L with heap, tail := some last, size := L.size + n }
  | none => some { L with head := some first, tail := some last, size := L.size + n }

/-- Hang a new cell behind the tail. -/
def pushBack (L : Linked w ν) (a : Addr) (v : ν) : Option (Linked w ν) :=
  link { L with heap := store L.heap a ⟨v, none⟩ } a a 1#w

/-- Take the first cell off. -/
def popFront (L : Linked w ν) : Option (Option ν × Linked w ν) :=
  match L.head with
  | none => some (none, L)
  | some a => (L.heap a).map fun c =>
      (some c.val, {
        heap := free L.heap a
        head := c.next
        tail := if c.next = none then none else L.tail
        size := L.size - 1#w })

/-- Take the cell `a`, whose successor is `next`, out of the chain, and free it. -/
def unlink (L : Linked w ν) (prev : Option Addr) (a : Addr) (next : Option Addr) : Option (Linked w ν) :=
  let tail := if L.tail = some a then prev else L.tail
  match prev with
  | some b => (setNext L.heap b next).map fun heap => { L with heap := free heap a, tail }
  | none => some { L with heap := free L.heap a, head := next, tail }

/-- Take out the first cell from `curr` on that satisfies `pick`. -/
def popLoop (pick : ν → Bool) (L : Linked w ν) : Nat → (prev curr : Option Addr) →
    Option (Option ν × Linked w ν)
  | 0, _, _ => none
  | _ + 1, _, none => some (none, L)
  | fuel + 1, prev, some a => do
    let c ← L.heap a
    if pick c.val then do
      let L' ← L.unlink prev a c.next
      some (some c.val, { L' with size := L'.size - 1#w })
    else popLoop pick L fuel (some a) c.next

def popWhere (pick : ν → Bool) (fuel : Nat) (L : Linked w ν) : Option (Option ν × Linked w ν) :=
  popLoop pick L fuel none L.head

/-- Take out every cell from `curr` on that satisfies `pick`, counting them. -/
def removeLoop (pick : ν → Bool) : Nat → Linked w ν → (prev curr : Option Addr) →
    (removed : BitVec w) → Option (Linked w ν × BitVec w)
  | 0, _, _, _, _ => none
  | _ + 1, L, _, none, removed => some ({ L with size := L.size - removed }, removed)
  | fuel + 1, L, prev, some a, removed => do
    let c ← L.heap a
    if pick c.val then do
      let L' ← L.unlink prev a c.next
      removeLoop pick fuel L' prev c.next (removed + 1#w)
    else removeLoop pick fuel L (some a) c.next removed

def removeWhere (pick : ν → Bool) (fuel : Nat) (L : Linked w ν) : Option (Linked w ν × BitVec w) :=
  removeLoop pick fuel L none L.head 0#w

/-- Free every cell from `curr` on. -/
def clearLoop : Nat → Heap ν → (curr : Option Addr) → Option (Heap ν)
  | 0, _, _ => none
  | _ + 1, h, none => some h
  | fuel + 1, h, some a => do
    let c ← h a
    clearLoop fuel (free h a) c.next

def clear (fuel : Nat) (L : Linked w ν) : Option (Linked w ν) :=
  (clearLoop fuel L.heap L.head).map empty

/-- The last cell of the chain from `a`: follow `next` until it is NULL. -/
def walk (h : Heap ν) : Nat → Addr → Option Addr
  | 0, _ => none
  | fuel + 1, a =>
    match h a with
    | none => none
    | some ⟨_, none⟩ => some a
    | some ⟨_, some b⟩ => walk h fuel b

/-! ## What a list holds

The predicate all rules are about: the chain, the tail, no cell twice.  The count is not part of it,
because a count of `w` bits may wrap; every rule says what it adds or takes. -/

/-- The chain from `head` is `l`; no cell occurs twice, and `tail` is the last. -/
structure Holds (L : Linked w ν) (l : List (Addr × ν)) : Prop where
  path : Seg L.heap L.head l none
  distinct : (addrs l).Nodup
  tail : L.tail = lastAddr l

/-- An empty list holds nothing, whatever is on the heap. -/
theorem holds_empty (heap : Heap ν) : (empty heap : Linked w ν).Holds [] :=
  ⟨rfl, List.nodup_nil, rfl⟩

/-- What happens outside its cells does not matter to a list. -/
theorem Holds.congr {L' : Linked w ν} (h : L.Holds l) (hhead : L'.head = L.head) (htail : L'.tail = L.tail)
    (hheap : ∀ a ∈ addrs l, L'.heap a = L.heap a) : L'.Holds l :=
  ⟨hhead ▸ h.path.congr hheap, h.distinct, htail.trans h.tail⟩

/-- The head points to the first cell. -/
theorem Holds.head (h : L.Holds l) : L.head = firstAddr l := h.path.first

/-- A list is empty if its tail is NULL. -/
theorem Holds.tail_none (h : L.Holds l) : L.tail = none ↔ l = [] := by
  rw [h.tail, lastAddr, List.getLast?_eq_none_iff]
  exact List.map_eq_nil_iff

/-- A head of null is an empty list. -/
theorem Holds.head_none (h : L.Holds l) : L.head = none ↔ l = [] := by
  rw [h.head, firstAddr, List.head?_eq_none_iff]
  exact List.map_eq_nil_iff

/-- The cell behind the first part of a list. -/
theorem Holds.cell (h : L.Holds (l₁ ++ (a, v) :: l₂)) : L.heap a = some ⟨v, firstAddr l₂⟩ := by
  obtain ⟨m, -, -, next, ha, hs⟩ := seg_append.mp h.path
  rw [ha, hs.first]

/-! ## Adding at the tail

A whole chain is linked behind the last cell, or made the list if there is none; one cell is the
special case. -/

/-- Linking a segment appends its values; only the cell that was last is written. -/
theorem link_spec (l₂ : List (Addr × ν)) {first last : Addr} (n : BitVec w) (h : L.Holds l)
    (hs : Seg L.heap (some first) l₂ none) (hlast : lastAddr l₂ = some last)
    (hnodup : (addrs (l ++ l₂)).Nodup) :
    ∃ L', L.link first last n = some L' ∧ L'.Holds (l ++ l₂) ∧ L'.size = L.size + n ∧
      ∀ b, b ∉ addrs l → L'.heap b = L.heap b := by
  have hapart : ∀ b ∈ addrs l, ∀ c ∈ addrs l₂, b ≠ c := by
    rw [addrs_append] at hnodup
    exact (List.nodup_append.mp hnodup).2.2
  have htail : lastAddr (l ++ l₂) = some last := by
    rw [lastAddr, addrs_append, List.getLast?_append, show (addrs l₂).getLast? = some last from hlast]
    rfl
  rcases List.eq_nil_or_concat l with rfl | ⟨l₀, ⟨a, v⟩, rfl⟩
  · have hnone : L.tail = none := h.tail
    refine ⟨{ L with head := some first, tail := some last, size := L.size + n }, ?_, ?_, rfl,
      fun _ _ => rfl⟩
    · rw [link, hnone]
    · exact ⟨hs, hnodup, htail.symm⟩
  · rw [List.concat_eq_append] at *
    have hsome : L.tail = some a := h.tail.trans lastAddr_concat
    have hset : setNext L.heap a (some first) = some (store L.heap a ⟨v, some first⟩) := by
      rw [setNext, h.path.last]
      rfl
    have ha : a ∈ addrs (l₀ ++ [(a, v)]) := by
      rw [addrs_append]
      exact List.mem_append_right _ (List.mem_singleton_self _)
    refine ⟨⟨store L.heap a ⟨v, some first⟩, L.head, some last, L.size + n⟩, ?_, ⟨?_, hnodup, htail.symm⟩,
      rfl, ?_⟩
    · rw [link, hsome]
      simp only [hset, Option.map_some]
    · refine seg_append.mpr ⟨some first, h.path.redirect h.distinct, hs.congr ?_⟩
      intro c hc
      exact store_of_ne fun heq => hapart a ha c hc heq.symm
    · intro b hb
      refine store_of_ne ?_
      rintro rfl
      exact hb ha

/-- Appending a cell: of the others only the last is written. -/
theorem pushBack_spec (h : L.Holds l) (hfree : L.heap a = none) (v : ν) :
    ∃ L', L.pushBack a v = some L' ∧ L'.Holds (l ++ [(a, v)]) ∧ L'.size = L.size + 1#w ∧
      ∀ b, b ∉ addrs l → b ≠ a → L'.heap b = L.heap b := by
  have hfresh : a ∉ addrs l := fun ha => h.path.allocated a ha hfree
  have hstored : ({ L with heap := store L.heap a ⟨v, none⟩ } : Linked w ν).Holds l := by
    refine h.congr rfl rfl ?_
    intro b hb
    refine store_of_ne ?_
    rintro rfl
    exact hfresh hb
  have hnodup : (addrs (l ++ [(a, v)])).Nodup := by
    rw [addrs_append]
    refine List.nodup_append.mpr ⟨h.distinct, List.nodup_singleton _, ?_⟩
    rintro b hb c hc rfl
    obtain rfl := List.mem_singleton.mp hc
    exact hfresh hb
  obtain ⟨L', hlink, hholds, hsize, hframe⟩ := link_spec [(a, v)] 1#w hstored
    (show Seg _ (some a) _ none from ⟨rfl, none, store_self, rfl⟩) rfl hnodup
  exact ⟨L', hlink, hholds, hsize, fun b hb hne => (hframe b hb).trans (store_of_ne hne)⟩

/-! ## Taking out

Taking out a cell needs the cell before it.  `Holds.parts` cuts the list at the cell, and
`unlink_spec` puts the rest together. -/

theorem popFront_nil (h : L.Holds []) : L.popFront = some (none, L) := by
  rw [popFront, show L.head = none from h.head]

/-- The first value is taken, and its cell leaves the list. -/
theorem popFront_spec (h : L.Holds ((a, v) :: l)) :
    ∃ L', L.popFront = some (some v, L') ∧ L'.Holds l ∧ L'.size = L.size - 1#w := by
  obtain ⟨hhead, next, ha, hs⟩ := h.path
  have hnodup := List.nodup_cons.mp h.distinct
  refine ⟨⟨free L.heap a, next, if next = none then none else L.tail, L.size - 1#w⟩, ?_, ⟨?_, hnodup.2, ?_⟩,
    rfl⟩
  · rw [popFront, hhead]
    simp only [ha, Option.map_some]
  · refine hs.congr ?_
    intro b hb
    refine free_of_ne ?_
    rintro rfl
    exact hnodup.1 hb
  · rw [hs.first, h.tail]
    cases l with
    | nil => rfl
    | cons x l => rfl

/-- The chain before a cell, and the one behind it. -/
theorem Holds.parts (h : L.Holds (l₁ ++ (a, v) :: l₂)) :
    Seg L.heap L.head l₁ (some a) ∧ Seg L.heap (firstAddr l₂) l₂ none := by
  obtain ⟨m, h₁, rfl, next, ha, h₂⟩ := seg_append.mp h.path
  refine ⟨h₁, ?_⟩
  rw [← h₂.first]
  exact h₂

/-- A cell of a list differs from those before and after it. -/
theorem Holds.apart (h : L.Holds (l₁ ++ (a, v) :: l₂)) :
    (∀ b ∈ addrs l₁, b ≠ a ∧ b ∉ addrs l₂) ∧ a ∉ addrs l₂ ∧ (addrs (l₁ ++ l₂)).Nodup := by
  have hd := h.distinct
  rw [addrs_append] at hd
  obtain ⟨hd₁, hd₂, hne⟩ := List.nodup_append.mp hd
  obtain ⟨ha, hd₂⟩ := List.nodup_cons.mp hd₂
  refine ⟨fun b hb => ⟨hne b hb a List.mem_cons_self, fun hb' =>
    hne b hb b (List.mem_cons_of_mem _ hb') rfl⟩, ha, ?_⟩
  rw [addrs_append]
  exact List.nodup_append.mpr ⟨hd₁, hd₂, fun b hb c hc => hne b hb c (List.mem_cons_of_mem _ hc)⟩

/-- The tail is moved back exactly if it is the cell that goes. -/
theorem Holds.tail_unlink (h : L.Holds (l₁ ++ (a, v) :: l₂)) :
    (if L.tail = some a then lastAddr l₁ else L.tail) = lastAddr (l₁ ++ l₂) := by
  rcases List.eq_nil_or_concat l₂ with rfl | ⟨l, ⟨c, u⟩, rfl⟩
  · rw [if_pos (h.tail.trans lastAddr_concat), List.append_nil]
  · rw [List.concat_eq_append] at *
    have htail : L.tail = some c := by
      rw [h.tail, ← List.cons_append, ← List.append_assoc]
      exact lastAddr_concat
    have hne : c ≠ a := by
      rintro rfl
      refine h.apart.2.1 ?_
      rw [addrs_append]
      exact List.mem_append_right _ (List.mem_singleton_self _)
    rw [htail, if_neg fun heq => hne (Option.some.inj heq), ← List.append_assoc, lastAddr_concat]

/-- The cell before is redirected, or the head; no other cell is touched. -/
theorem unlink_spec (h : L.Holds (l₁ ++ (a, v) :: l₂)) :
    ∃ L', L.unlink (lastAddr l₁) a (firstAddr l₂) = some L' ∧ L'.Holds (l₁ ++ l₂) ∧ L'.size = L.size ∧
      ∀ b, b ∉ addrs (l₁ ++ (a, v) :: l₂) → L'.heap b = L.heap b := by
  have hne : ∀ {b c}, b ∉ addrs (l₁ ++ (a, v) :: l₂) → c ∈ addrs l₁ ∨ c = a → b ≠ c := by
    rintro b c hb hc rfl
    rw [addrs_append] at hb
    rcases hc with hc | rfl
    · exact hb (List.mem_append_left _ hc)
    · exact hb (List.mem_append_right _ List.mem_cons_self)
  obtain ⟨hbefore, hbehind⟩ := h.parts
  obtain ⟨hapart, ha, hnodup⟩ := h.apart
  have htail := h.tail_unlink
  rcases List.eq_nil_or_concat l₁ with rfl | ⟨l₀, ⟨b, u⟩, rfl⟩
  · refine ⟨⟨free L.heap a, firstAddr l₂, if L.tail = some a then none else L.tail, L.size⟩, rfl,
      ⟨hbehind.congr ?_, hnodup, htail⟩, rfl, fun c hc => free_of_ne (hne hc (.inr rfl))⟩
    intro c hc
    refine free_of_ne ?_
    rintro rfl
    exact ha hc
  · rw [List.concat_eq_append] at *
    have hset : setNext L.heap b (firstAddr l₂) = some (store L.heap b ⟨u, firstAddr l₂⟩) := by
      rw [setNext, hbefore.last]
      rfl
    have hb : b ∈ addrs (l₀ ++ [(b, u)]) := by
      rw [addrs_append]
      exact List.mem_append_right _ (List.mem_singleton_self _)
    have hdistinct : (addrs (l₀ ++ [(b, u)])).Nodup := by
      rw [addrs_append] at hnodup
      exact (List.nodup_append.mp hnodup).1
    rw [lastAddr_concat] at htail ⊢
    refine ⟨⟨free (store L.heap b ⟨u, firstAddr l₂⟩) a, L.head, if L.tail = some a then some b else L.tail,
      L.size⟩, ?_, ⟨?_, hnodup, htail⟩, rfl, fun c hc =>
        (free_of_ne (hne hc (.inr rfl))).trans (store_of_ne (hne hc (.inl hb)))⟩
    · simp only [unlink, hset, Option.map_some]
    · refine seg_append.mpr ⟨firstAddr l₂, (hbefore.redirect hdistinct).congr ?_, hbehind.congr ?_⟩
      · intro c hc
        exact free_of_ne (hapart c hc).1
      · intro c hc
        have hca : c ≠ a := by
          rintro rfl
          exact ha hc
        have hcb : c ≠ b := by
          rintro rfl
          exact (hapart c hb).2 hc
        exact (free_of_ne hca).trans (store_of_ne hcb)

/-! ## The loops

Each by induction on what is left, with `prev` the last cell of what was passed.  Enough fuel is
more than the list is long, so each loop ends. -/

/-- `l₁` is passed, no cell of it matches; `l₂` is left. -/
theorem popLoop_spec (pick : ν → Bool) : ∀ (l₂ l₁ : List (Addr × ν)) {fuel : Nat},
    L.Holds (l₁ ++ l₂) → l₂.length < fuel →
    match Queue.popFirst (fun x => pick x.2) l₂ with
    | none => popLoop pick L fuel (lastAddr l₁) (firstAddr l₂) = some (none, L)
    | some (x, rest) => ∃ L', popLoop pick L fuel (lastAddr l₁) (firstAddr l₂) = some (some x.2, L') ∧
        L'.Holds (l₁ ++ rest) ∧ L'.size = L.size - 1#w ∧
        ∀ b, b ∉ addrs (l₁ ++ l₂) → L'.heap b = L.heap b
  | [], l₁, fuel + 1, _, _ => rfl
  | (a, v) :: l₂, l₁, fuel + 1, h, hfuel => by
      have hcell := h.cell
      have hstep : popLoop pick L (fuel + 1) (lastAddr l₁) (firstAddr ((a, v) :: l₂)) =
          if pick v then (L.unlink (lastAddr l₁) a (firstAddr l₂)).bind fun L' =>
            some (some v, { L' with size := L'.size - 1#w })
          else popLoop pick L fuel (some a) (firstAddr l₂) := by
        show popLoop pick L (fuel + 1) (lastAddr l₁) (some a) = _
        simp only [popLoop, hcell, Option.bind_eq_bind, Option.bind_some]
      rw [hstep, Queue.popFirst]
      by_cases hv : pick v = true
      · simp only [hv, if_true]
        obtain ⟨L', hunlink, hholds, hsize, hframe⟩ := unlink_spec h
        refine ⟨{ L' with size := L'.size - 1#w }, ?_, ⟨hholds.path, hholds.distinct, hholds.tail⟩, ?_,
          hframe⟩
        · rw [hunlink]
          rfl
        · rw [← hsize]
      · simp only [hv]
        have hih := popLoop_spec pick l₂ (l₁ ++ [(a, v)])
          (by rw [List.append_assoc]; exact h) (Nat.lt_of_succ_lt_succ hfuel)
        rw [lastAddr_concat] at hih
        cases hpop : Queue.popFirst (fun x => pick x.2) l₂ with
        | none =>
          rw [hpop] at hih
          exact hih
        | some r =>
          rw [hpop] at hih
          obtain ⟨L', hL', hholds, hsize, hframe⟩ := hih
          rw [List.append_assoc] at hholds hframe
          exact ⟨L', hL', hholds, hsize, hframe⟩

/-- The walk takes the first value that fits, wherever it is. -/
theorem popWhere_spec (pick : ν → Bool) {fuel : Nat} (h : L.Holds l) (hfuel : l.length < fuel) :
    match Queue.popFirst (fun x => pick x.2) l with
    | none => L.popWhere pick fuel = some (none, L)
    | some (x, rest) => ∃ L', L.popWhere pick fuel = some (some x.2, L') ∧ L'.Holds rest ∧
        L'.size = L.size - 1#w ∧ ∀ b, b ∉ addrs l → L'.heap b = L.heap b := by
  have hloop := popLoop_spec pick l [] h hfuel
  rw [popWhere, h.head]
  exact hloop

/-- `l₁` is kept, `l₂` is left. -/
theorem removeLoop_spec (pick : ν → Bool) : ∀ (l₂ l₁ : List (Addr × ν))
    {L : Linked w ν} {fuel : Nat} (k : BitVec w), L.Holds (l₁ ++ l₂) → l₂.length < fuel →
    ∃ L', removeLoop pick fuel L (lastAddr l₁) (firstAddr l₂) k =
        some (L', k + BitVec.ofNat w (l₂.filter fun x => pick x.2).length) ∧
      L'.Holds (l₁ ++ l₂.filter fun x => !pick x.2) ∧
      L'.size = L.size - (k + BitVec.ofNat w (l₂.filter fun x => pick x.2).length)
  | [], l₁, L, fuel + 1, k, h, _ => by
      refine ⟨{ L with size := L.size - k }, ?_, ⟨h.path, h.distinct, h.tail⟩, ?_⟩
      · show some _ = some _
        rw [List.filter_nil, List.length_nil, BitVec.add_zero]
      · rw [List.filter_nil, List.length_nil, BitVec.add_zero]
  | (a, v) :: l₂, l₁, L, fuel + 1, k, h, hfuel => by
      have hcell := h.cell
      have hstep : removeLoop pick (fuel + 1) L (lastAddr l₁) (firstAddr ((a, v) :: l₂)) k =
          if pick v then (L.unlink (lastAddr l₁) a (firstAddr l₂)).bind fun L' =>
            removeLoop pick fuel L' (lastAddr l₁) (firstAddr l₂) (k + 1#w)
          else removeLoop pick fuel L (some a) (firstAddr l₂) k := by
        show removeLoop pick (fuel + 1) L (lastAddr l₁) (some a) k = _
        simp only [removeLoop, hcell, Option.bind_eq_bind, Option.bind_some]
      rw [hstep]
      by_cases hv : pick v = true
      · obtain ⟨L₁, hunlink, hholds, hsize, -⟩ := unlink_spec h
        obtain ⟨L', hrest, hholds', hsize'⟩ :=
          removeLoop_spec pick l₂ l₁ (k + 1#w) hholds (Nat.lt_of_succ_lt_succ hfuel)
        have hcount : k + BitVec.ofNat w ((l₂.filter fun x => pick x.2).length + 1) =
            k + 1#w + BitVec.ofNat w (l₂.filter fun x => pick x.2).length := by
          rw [BitVec.ofNat_add, BitVec.add_comm (BitVec.ofNat w _) (BitVec.ofNat w 1), ← BitVec.add_assoc]
        rw [if_pos hv, hunlink, Option.bind_some, List.filter_cons_of_pos (by exact hv),
          List.filter_cons_of_neg (by simp [hv]), List.length_cons, hcount, ← hsize]
        exact ⟨L', hrest, hholds', hsize'⟩
      · obtain ⟨L', hrest, hholds', hsize'⟩ := removeLoop_spec pick l₂ (l₁ ++ [(a, v)]) k
          (by rw [List.append_assoc]; exact h) (Nat.lt_of_succ_lt_succ hfuel)
        rw [lastAddr_concat] at hrest
        rw [List.append_assoc] at hholds'
        rw [if_neg hv, List.filter_cons_of_neg (by exact hv), List.filter_cons_of_pos (by simp [hv])]
        exact ⟨L', hrest, hholds', hsize'⟩

/-- The walk takes all values that fit, and says how many they were. -/
theorem removeWhere_spec (pick : ν → Bool) {fuel : Nat} (h : L.Holds l) (hfuel : l.length < fuel) :
    ∃ L', L.removeWhere pick fuel = some (L', BitVec.ofNat w (l.filter fun x => pick x.2).length) ∧
      L'.Holds (l.filter fun x => !pick x.2) ∧
      L'.size = L.size - BitVec.ofNat w (l.filter fun x => pick x.2).length := by
  obtain ⟨L', hloop, hholds, hsize⟩ := removeLoop_spec pick l [] 0#w h hfuel
  rw [BitVec.zero_add] at hloop hsize
  refine ⟨L', ?_, hholds, hsize⟩
  rw [removeWhere, h.head]
  exact hloop

/-- Freeing goes through the whole list: every next cell is read before its cell is freed. -/
theorem clearLoop_spec : ∀ {l : List (Addr × ν)} {h : Heap ν} {p : Option Addr} {fuel : Nat},
    Seg h p l none → (addrs l).Nodup → l.length < fuel → ∃ h', clearLoop fuel h p = some h'
  | [], h, p, fuel + 1, hs, _, _ => by
      obtain rfl : p = none := hs
      exact ⟨h, rfl⟩
  | (a, v) :: l, h, p, fuel + 1, ⟨hp, next, ha, hs⟩, hnodup, hfuel => by
      obtain ⟨hfresh, hnodup⟩ := List.nodup_cons.mp hnodup
      have hrest : Seg (free h a) next l none := by
        refine hs.congr ?_
        intro b hb
        refine free_of_ne ?_
        rintro rfl
        exact hfresh hb
      obtain ⟨h', hloop⟩ := clearLoop_spec hrest hnodup (Nat.lt_of_succ_lt_succ hfuel)
      refine ⟨h', ?_⟩
      rw [hp]
      simp only [clearLoop, ha, Option.bind_eq_bind, Option.bind_some]
      exact hloop

/-- What remains is empty. -/
theorem clear_spec {fuel : Nat} (h : L.Holds l) (hfuel : l.length < fuel) :
    ∃ heap, L.clear fuel = some (empty heap) := by
  obtain ⟨heap, hloop⟩ := clearLoop_spec h.path h.distinct hfuel
  exact ⟨heap, by rw [clear, hloop]; rfl⟩

/-- The walk to the end stops at the last cell. -/
theorem walk_spec : ∀ {l : List (Addr × ν)} {h : Heap ν} {a : Addr} {fuel : Nat},
    Seg h (some a) l none → l.length ≤ fuel → walk h fuel a = lastAddr l
  | [(b, v)], h, a, fuel + 1, ⟨hp, next, hb, hs⟩, _ => by
      obtain rfl := Option.some.inj hp
      obtain rfl : next = none := hs
      rw [walk, hb]
      rfl
  | (b, v) :: (c, u) :: l, h, a, fuel + 1, ⟨hp, next, hb, hs⟩, hfuel => by
      obtain rfl := Option.some.inj hp
      obtain rfl : next = some c := hs.1
      have hih := walk_spec hs (Nat.le_of_succ_le_succ hfuel)
      rw [walk, hb]
      refine hih.trans ?_
      simp only [lastAddr, addrs, List.map_cons, List.getLast?_cons_cons]

/-! ## Building a chain

Cells appended one after the other to a list of their own, before it is linked anywhere. -/

/-- A new list of the cells `cells`, one after the other, beside what is in the heap. -/
def build (heap : Heap ν) (cells : List (Addr × ν)) : Option (Linked w ν) :=
  cells.foldlM (fun B x => B.pushBack x.1 x.2) (empty heap)

/-- Appending one cell after the other to a list that is already there. -/
theorem build_from : ∀ {cells : List (Addr × ν)} {B : Linked w ν} {l : List (Addr × ν)}, B.Holds l →
    (addrs (l ++ cells)).Nodup → (∀ a ∈ addrs cells, B.heap a = none) →
    ∃ B', cells.foldlM (fun B x => B.pushBack x.1 x.2) B = some B' ∧ B'.Holds (l ++ cells) ∧
      B'.size = B.size + BitVec.ofNat w cells.length ∧
      ∀ b, b ∉ addrs (l ++ cells) → B'.heap b = B.heap b
  | [], B, l, h, _, _ => by
      rw [List.append_nil]
      refine ⟨B, rfl, h, ?_, fun _ _ => rfl⟩
      rw [List.length_nil, BitVec.add_zero]
  | (a, v) :: cells, B, l, h, hnodup, hfree => by
      have hassoc : l ++ (a, v) :: cells = (l ++ [(a, v)]) ++ cells := (List.append_cons ..)
      obtain ⟨B₁, hpush, h₁, hsize, hframe⟩ := pushBack_spec h (hfree a List.mem_cons_self) v
      rw [hassoc] at hnodup ⊢
      have hfresh : ∀ b ∈ addrs cells, b ∉ addrs (l ++ [(a, v)]) := by
        intro b hb hb'
        rw [addrs_append] at hnodup
        exact (List.nodup_append.mp hnodup).2.2 b hb' b hb rfl
      have hnotin : ∀ {b}, b ∉ addrs (l ++ [(a, v)]) → b ∉ addrs l ∧ b ≠ a := by
        intro b hb
        rw [addrs_append] at hb
        exact ⟨fun hl => hb (List.mem_append_left _ hl),
          fun heq => hb (List.mem_append_right _ (List.mem_singleton.mpr heq))⟩
      have hsame : ∀ b, b ∉ addrs (l ++ [(a, v)]) → B₁.heap b = B.heap b := fun b hb =>
        hframe b (hnotin hb).1 (hnotin hb).2
      obtain ⟨B', hrest, hholds, hsize', hframe'⟩ := build_from h₁ hnodup fun b hb =>
        (hsame b (hfresh b hb)).trans (hfree b (List.mem_cons_of_mem _ hb))
      refine ⟨B', ?_, hholds, ?_, ?_⟩
      · rw [List.foldlM_cons, hpush]
        exact hrest
      · rw [hsize', hsize, List.length_cons, BitVec.add_assoc, Nat.add_comm, BitVec.ofNat_add]
      · intro b hb
        refine (hframe' b hb).trans (hsame b ?_)
        rw [addrs_append] at hb
        exact fun hb' => hb (List.mem_append_left _ hb')

/-- A list built from nothing holds the values in the order they came. -/
theorem build_spec {heap : Heap ν} {cells : List (Addr × ν)} (hnodup : (addrs cells).Nodup)
    (hfree : ∀ a ∈ addrs cells, heap a = none) :
    ∃ B : Linked w ν, build heap cells = some B ∧ B.Holds cells ∧
      B.size = BitVec.ofNat w cells.length ∧ ∀ b, b ∉ addrs cells → B.heap b = heap b := by
  obtain ⟨B, hbuild, hholds, hsize, hframe⟩ := build_from (w := w) (holds_empty heap) hnodup hfree
  exact ⟨B, hbuild, hholds, hsize.trans (BitVec.zero_add _), hframe⟩

/-! ## The values of a list

What the users of a list see: `Carries` forgets the addresses, so that the rules are about plain
lists of values. -/

/-- The list holds the values `xs`, and counts them. -/
def Carries (L : Linked w ν) (xs : List ν) : Prop :=
  ∃ l, L.Holds l ∧ l.map Prod.snd = xs ∧ L.size = BitVec.ofNat w xs.length

/-- The chain from `head` is finite, without a cycle, and holds `xs`; the count is its length, the
    tail its last cell, and NULL exactly if the head is. -/
def Represents (L : Linked w ν) (xs : List ν) : Prop :=
  ∃ l, L.Holds l ∧ l.map Prod.snd = xs ∧ L.size.toNat = l.length ∧ (L.tail = none ↔ L.head = none)

/-- The count is right while it does not wrap. -/
theorem Carries.represents {xs : List ν} (h : L.Carries xs) (hroom : xs.length < 2 ^ w) :
    L.Represents xs := by
  obtain ⟨l, hholds, rfl, hsize⟩ := h
  refine ⟨l, hholds, rfl, ?_, hholds.tail_none.trans hholds.head_none.symm⟩
  rw [hsize, BitVec.toNat_ofNat, Nat.mod_eq_of_lt hroom, List.length_map]

/-- An empty list carries nothing. -/
theorem carries_empty (heap : Heap ν) : (empty heap : Linked w ν).Carries [] :=
  ⟨[], holds_empty heap, rfl, rfl⟩

/-- Taking away no more than there is does not wrap below zero. -/
theorem ofNat_sub_ofNat {n k : Nat} (h : k ≤ n) :
    BitVec.ofNat w n - BitVec.ofNat w k = BitVec.ofNat w (n - k) := by
  obtain ⟨m, rfl⟩ := Nat.exists_eq_add_of_le h
  rw [Nat.add_sub_cancel_left, Nat.add_comm, BitVec.ofNat_add, BitVec.add_sub_cancel]

section

variable {xs : List ν}

/-- Appending, by values. -/
theorem Carries.pushBack (h : L.Carries xs) (hfree : L.heap a = none) (v : ν) :
    ∃ L', L.pushBack a v = some L' ∧ L'.Carries (xs ++ [v]) := by
  obtain ⟨l, hholds, rfl, hsize⟩ := h
  obtain ⟨L', hpush, hholds', hsize', -⟩ := pushBack_spec hholds hfree v
  refine ⟨L', hpush, l ++ [(a, v)], hholds', List.map_append, ?_⟩
  rw [hsize', hsize, List.length_append, BitVec.ofNat_add]
  rfl

/-- A chain that was built beside the list, and is hung behind it. -/
theorem Carries.link (h : L.Carries xs) {cells : List (Addr × ν)} (hne : cells ≠ [])
    (hnodup : (addrs cells).Nodup) (hfree : ∀ a ∈ addrs cells, L.heap a = none) {fuel : Nat}
    (hfuel : cells.length ≤ fuel) :
    ∃ (B L' : Linked w ν) (first last : Addr), build L.heap cells = some B ∧ B.head = some first ∧
      walk B.heap fuel first = some last ∧ { L with heap := B.heap }.link first last B.size = some L' ∧
      L'.Carries (xs ++ cells.map Prod.snd) := by
  obtain ⟨l, hholds, rfl, hsize⟩ := h
  obtain ⟨B, hbuild, hB, hBsize, hframe⟩ := build_spec (w := w) hnodup hfree
  have hapart : ∀ a ∈ addrs l, a ∉ addrs cells := fun a ha ha' => hholds.path.allocated a ha (hfree a ha')
  have hkept : ({ L with heap := B.heap } : Linked w ν).Holds l :=
    hholds.congr rfl rfl fun a ha => hframe a (hapart a ha)
  obtain ⟨first, hfirst⟩ : ∃ first, B.head = some first :=
    Option.ne_none_iff_exists'.mp fun hnone => hne (hB.head_none.mp hnone)
  obtain ⟨last, hlast⟩ : ∃ last, lastAddr cells = some last :=
    Option.ne_none_iff_exists'.mp fun hnone => hne (hB.tail_none.mp (hB.tail.trans hnone))
  have hpath : Seg B.heap (some first) cells none := by
    rw [← hfirst]
    exact hB.path
  obtain ⟨L', hlink, hholds', hsize', -⟩ := link_spec cells B.size hkept hpath hlast (by
    rw [addrs_append]
    exact List.nodup_append.mpr ⟨hholds.distinct, hnodup, fun a ha b hb heq => hapart a ha (heq ▸ hb)⟩)
  refine ⟨B, L', first, last, hbuild, hfirst, (walk_spec hpath hfuel).trans hlast, hlink, l ++ cells, hholds',
    List.map_append, ?_⟩
  rw [hsize', hBsize, List.length_append, List.length_map, List.length_map, BitVec.ofNat_add,
    hsize, List.length_map]

/-- Taking the first, by values. -/
theorem Carries.popFront (h : L.Carries xs) :
    ∃ L', L.popFront = some (xs.head?, L') ∧ L'.Carries xs.tail := by
  obtain ⟨l, hholds, rfl, hsize⟩ := h
  cases l with
  | nil => exact ⟨L, popFront_nil hholds, [], hholds, rfl, hsize⟩
  | cons x l =>
    obtain ⟨L', hpop, hholds', hsize'⟩ := popFront_spec hholds
    refine ⟨L', hpop, l, hholds', rfl, ?_⟩
    rw [hsize', hsize, List.map_cons, List.length_cons, List.tail_cons]
    exact ofNat_sub_ofNat (Nat.le_add_left 1 _)

/-- Taking the first that fits, by values. -/
theorem Carries.popWhere (h : L.Carries xs) (pick : ν → Bool) {fuel : Nat} (hfuel : xs.length < fuel) :
    ∃ L', L.popWhere pick fuel = some ((Queue.popFirst pick xs).map Prod.fst, L') ∧
      L'.Carries (((Queue.popFirst pick xs).map Prod.snd).getD xs) := by
  obtain ⟨l, hholds, rfl, hsize⟩ := h
  rw [List.length_map] at hfuel
  have hpop := popWhere_spec pick hholds hfuel
  rw [Queue.popFirst_map]
  cases hfirst : Queue.popFirst (fun x => pick x.2) l with
  | none =>
    rw [hfirst] at hpop
    exact ⟨L, hpop, l, hholds, rfl, hsize⟩
  | some r =>
    rw [hfirst] at hpop
    obtain ⟨L', hL', hholds', hsize', -⟩ := hpop
    obtain ⟨l₁, l₂, hl, hrest, -, -⟩ := Queue.popFirst_some hfirst
    refine ⟨L', hL', r.2, hholds', rfl, ?_⟩
    rw [hsize', hsize, hl]
    show _ = BitVec.ofNat w (r.2.map Prod.snd).length
    rw [hrest]
    simp only [List.length_map, List.length_append, List.length_cons]
    exact ofNat_sub_ofNat (by omega)

/-- Taking all that fit, by values. -/
theorem Carries.removeWhere (h : L.Carries xs) (pick : ν → Bool) {fuel : Nat} (hfuel : xs.length < fuel) :
    ∃ L', L.removeWhere pick fuel = some (L', BitVec.ofNat w (xs.filter pick).length) ∧
      L'.Carries (xs.filter fun x => !pick x) := by
  obtain ⟨l, hholds, rfl, hsize⟩ := h
  rw [List.length_map] at hfuel
  obtain ⟨L', hremove, hholds', hsize'⟩ := removeWhere_spec pick hholds hfuel
  have hcount : ((l.map Prod.snd).filter pick).length = (l.filter fun x => pick x.2).length := by
    rw [List.filter_map, List.length_map]
    rfl
  have hkept : (l.filter fun x => !pick x.2).map Prod.snd
      = (l.map Prod.snd).filter fun x => !pick x := by
    rw [List.filter_map]
    rfl
  refine ⟨L', by rw [hcount]; exact hremove, _, hholds', hkept, ?_⟩
  have hlen : l.length = (l.filter fun x => pick x.2).length + (l.filter fun x => !pick x.2).length :=
    List.length_eq_length_filter_add _
  rw [hsize', hsize, ← hkept, List.length_map, List.length_map, ofNat_sub_ofNat (by omega)]
  congr 1
  omega

/-- Freeing all. -/
theorem Carries.clear (h : L.Carries xs) {fuel : Nat} (hfuel : xs.length < fuel) :
    ∃ L', L.clear fuel = some L' ∧ L'.Carries [] := by
  obtain ⟨l, hholds, rfl, -⟩ := h
  rw [List.length_map] at hfuel
  obtain ⟨heap, hclear⟩ := clear_spec hholds hfuel
  exact ⟨_, hclear, carries_empty heap⟩

end

end Linked
