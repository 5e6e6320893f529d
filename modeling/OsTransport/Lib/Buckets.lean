/-
  Buckets of singly linked chains in one heap.

  A table of buckets is a slot for each bucket, the pointer to the first cell of its chain, and all
  chains share a heap.  A new cell is put in front.  To remove one, a pointer to a POINTER walks
  down the chain: it points at the slot, then at the `next` field of the cell just passed, and
  what it points at is redirected, so the first cell of a chain is no case of its own.

  `Holds` says which cells the chains have, and that no cell is in two of them.  The rules
  (`find_spec`, `pushFront_spec`, `modify_spec`, `remove_spec`) are about one bucket, and say that
  the others keep their cells (`Holds.update`).

  The walk with a pointer to a pointer is the walk of `OsTransport.Lib.Linked` with the cell before
  (`removeLoop_eq`): a bucket is such a list, once a tail and a count are put beside it.

  The specifications of the loops are by induction on the part of the chain still ahead, with the
  part passed as a parameter (`findLoop_spec`).  The walk that removes is not proved again: `row`
  sees the bucket as a list with a tail and a count, and `removeLoop_eq` says that a walk with a
  pointer to a pointer and a walk with the cell before leave the same heap.
-/
import OsTransport.Lib.Linked

open Linked

/-- The slots of the buckets, and the heap of their cells. -/
structure Buckets (ν : Type*) where
  heap : Heap ν
  slot : Nat → Option Addr

namespace Buckets

variable {ν : Type*} {B B' : Buckets ν} {a : Addr} {v : ν} {b b' : Nat} {l l₁ l₂ : List (Addr × ν)}
  {cells : Nat → List (Addr × ν)}

/-! ## The operations

`Ref` is what a pointer to a pointer may point at: the slot of the bucket, or the `next` field of a
cell.  Reading and writing through it is `read` and `write`; the loops have a fuel, as many rounds
as the caller gives them. -/

/-- Empty buckets beside whatever else is in the heap. -/
def empty (heap : Heap ν) : Buckets ν := ⟨heap, fun _ => none⟩

/-- What a pointer to a pointer points at. -/
inductive Ref
  | slot (b : Nat)
  | next (a : Addr)

/-- `*p`. -/
def read (B : Buckets ν) : Ref → Option (Option Addr)
  | .slot b => some (B.slot b)
  | .next a => (B.heap a).map Cell.next

/-- `*p = q`. -/
def write (B : Buckets ν) (p : Ref) (q : Option Addr) : Option (Buckets ν) :=
  match p with
  | .slot b => some { B with slot := Function.update B.slot b q }
  | .next a => (setNext B.heap a q).map fun heap => { B with heap }

/-- The first cell from `curr` on that satisfies `pick`. -/
def findLoop (pick : ν → Bool) (B : Buckets ν) : Nat → (curr : Option Addr) → Option (Option Addr)
  | 0, _ => none
  | _ + 1, none => some none
  | fuel + 1, some a =>
    match B.heap a with
    | none => none
    | some c => if pick c.val then some (some a) else findLoop pick B fuel c.next

def find (pick : ν → Bool) (fuel : Nat) (B : Buckets ν) (b : Nat) : Option (Option Addr) :=
  findLoop pick B fuel (B.slot b)

/-- Put the cell `a` in front of bucket `b`. -/
def pushFront (B : Buckets ν) (b : Nat) (a : Addr) : Option (Buckets ν) :=
  (setNext B.heap a (B.slot b)).map fun heap => ⟨heap, Function.update B.slot b (some a)⟩

/-- Change the value in cell `a`. -/
def modify (B : Buckets ν) (a : Addr) (f : ν → ν) : Option (Buckets ν) :=
  (B.heap a).map fun c => { B with heap := store B.heap a { c with val := f c.val } }

/-- Take out the first cell from `*p` on that satisfies `pick`, and free it. -/
def removeLoop (pick : ν → Bool) (B : Buckets ν) : Nat → (p : Ref) → Option (Bool × Buckets ν)
  | 0, _ => none
  | fuel + 1, p =>
    match B.read p with
    | none => none
    | some none => some (false, B)
    | some (some a) => do
      let c ← B.heap a
      if pick c.val then do
        let B' ← B.write p c.next
        some (true, { B' with heap := free B'.heap a })
      else removeLoop pick B fuel (.next a)

def remove (pick : ν → Bool) (fuel : Nat) (B : Buckets ν) (b : Nat) : Option (Bool × Buckets ν) :=
  removeLoop pick B fuel (.slot b)

/-! ## What the buckets hold

Every bucket has its own list of cells; an edit of one replaces its list and keeps the others, as
long as the cells it writes are its own or new. -/

/-- The chain of bucket `b` is `cells b`; no cell occurs twice. -/
structure Holds (B : Buckets ν) (cells : Nat → List (Addr × ν)) : Prop where
  path : ∀ b, Seg B.heap (B.slot b) (cells b) none
  distinct : ∀ b, (addrs (cells b)).Nodup
  apart : ∀ b b', b ≠ b' → ∀ a ∈ addrs (cells b), a ∉ addrs (cells b')

theorem holds_empty (heap : Heap ν) : (empty heap).Holds fun _ => [] where
  path _ := rfl
  distinct _ := List.nodup_nil
  apart _ _ _ _ ha := nomatch ha

/-- One bucket is edited: it gets the chain `l`, of its old cells and new ones. -/
theorem Holds.update (h : B.Holds cells) (hpath : Seg B'.heap (B'.slot b) l none)
    (hnodup : (addrs l).Nodup) (hslot : ∀ b', b' ≠ b → B'.slot b' = B.slot b')
    (hnew : ∀ a ∈ addrs l, a ∈ addrs (cells b) ∨ ∀ b', a ∉ addrs (cells b'))
    (hheap : ∀ b', b' ≠ b → ∀ a ∈ addrs (cells b'), B'.heap a = B.heap a) :
    B'.Holds (Function.update cells b l) := by
  have hother : ∀ b', b' ≠ b → ∀ a ∈ addrs l, a ∉ addrs (cells b') := by
    intro b' hb a ha
    rcases hnew a ha with hold | hfresh
    · exact h.apart b b' (Ne.symm hb) a hold
    · exact hfresh b'
  refine ⟨fun b' => ?_, fun b' => ?_, fun b₁ b₂ hne => ?_⟩
  · by_cases hb : b' = b
    · subst hb
      rw [Function.update_self]
      exact hpath
    · rw [Function.update_of_ne hb, hslot b' hb]
      exact (h.path b').congr (hheap b' hb)
  · by_cases hb : b' = b
    · subst hb
      rw [Function.update_self]
      exact hnodup
    · rw [Function.update_of_ne hb]
      exact h.distinct b'
  · by_cases h₁ : b₁ = b
    · subst h₁
      rw [Function.update_self, Function.update_of_ne (Ne.symm hne)]
      exact hother b₂ (Ne.symm hne)
    · rw [Function.update_of_ne h₁]
      by_cases h₂ : b₂ = b
      · subst h₂
        rw [Function.update_self]
        exact fun a ha ha' => hother b₁ h₁ a ha' ha
      · rw [Function.update_of_ne h₂]
        exact h.apart b₁ b₂ hne

theorem Holds.cell (h : B.Holds cells) (hb : cells b = l₁ ++ (a, v) :: l₂) :
    B.heap a = some ⟨v, firstAddr l₂⟩ := by
  have hpath := h.path b
  rw [hb] at hpath
  obtain ⟨m, -, -, next, ha, hs⟩ := seg_append.mp hpath
  rw [ha, hs.first]

/-! ## Looking for a cell

The search goes down one chain and reads nothing else. -/

/-- A walk from `curr` on ends at the first match. -/
theorem findLoop_spec (pick : ν → Bool) : ∀ {l : List (Addr × ν)} {curr : Option Addr} {fuel : Nat},
    Seg B.heap curr l none → l.length < fuel →
    findLoop pick B fuel curr = some ((l.find? fun x => pick x.2).map Prod.fst)
  | [], curr, fuel + 1, hs, _ => by
      obtain rfl : curr = none := hs
      rfl
  | (a, v) :: l, curr, fuel + 1, ⟨hcurr, next, ha, hs⟩, hfuel => by
      subst hcurr
      simp only [findLoop, ha]
      rw [List.find?_cons]
      cases hv : pick v with
      | true => rfl
      | false => exact findLoop_spec pick hs (Nat.lt_of_succ_lt_succ hfuel)

theorem find_spec (pick : ν → Bool) {fuel : Nat} (h : B.Holds cells) (hfuel : (cells b).length < fuel) :
    find pick fuel B b = some (((cells b).find? fun x => pick x.2).map Prod.fst) :=
  findLoop_spec pick (h.path b) hfuel

/-! ## Editing a bucket

Two edits that need no walk: a new cell in front, and a new value in a cell that is there. -/

/-- A new cell becomes the first of its bucket. -/
theorem pushFront_spec (h : B.Holds cells) (hfree : B.heap a = none) (b : Nat) (v : ν)
    (next : Option Addr) :
    ∃ B', pushFront { B with heap := store B.heap a ⟨v, next⟩ } b a = some B' ∧
      B'.Holds (Function.update cells b ((a, v) :: cells b)) := by
  have hfresh : ∀ b', a ∉ addrs (cells b') := fun b' ha => (h.path b').allocated a ha hfree
  have hsame : ∀ b', ∀ c ∈ addrs (cells b'),
      store (store B.heap a ⟨v, next⟩) a ⟨v, B.slot b⟩ c = B.heap c := by
    intro b' c hc
    have hne : c ≠ a := by
      rintro rfl
      exact hfresh b' hc
    rw [store_of_ne hne, store_of_ne hne]
  refine ⟨⟨store (store B.heap a ⟨v, next⟩) a ⟨v, B.slot b⟩, Function.update B.slot b (some a)⟩,
    ?_, h.update ?_ ?_ (fun b' hb => Function.update_of_ne hb ..) ?_ fun b' _ => hsame b'⟩
  · have hcell : store B.heap a ⟨v, next⟩ a = some ⟨v, next⟩ := store_self
    simp only [pushFront, setNext, hcell, Option.map_some]
  · refine ⟨Function.update_self .., B.slot b, store_self, ?_⟩
    exact (h.path b).congr (hsame b)
  · exact List.nodup_cons.mpr ⟨hfresh b, h.distinct b⟩
  · intro c hc
    rcases List.mem_cons.mp hc with rfl | hc
    · exact .inr hfresh
    · exact .inl hc

/-- A value is changed in place. -/
theorem modify_spec (h : B.Holds cells) (hb : cells b = l₁ ++ (a, v) :: l₂) (f : ν → ν) :
    ∃ B', B.modify a f = some B' ∧ B'.Holds (Function.update cells b (l₁ ++ (a, f v) :: l₂)) := by
  have hcell := h.cell hb
  have haddrs : addrs (l₁ ++ (a, f v) :: l₂) = addrs (cells b) := by
    rw [hb, addrs_append, addrs_append]
    rfl
  have hd := h.distinct b
  rw [hb, addrs_append] at hd
  obtain ⟨-, hd₂, hne⟩ := List.nodup_append.mp hd
  have hother : ∀ c, c ≠ a → store B.heap a ⟨f v, firstAddr l₂⟩ c = B.heap c := fun c hc => store_of_ne hc
  have hpath := h.path b
  rw [hb] at hpath
  obtain ⟨m, h₁, hm, next, ha, h₂⟩ := seg_append.mp hpath
  refine ⟨{ B with heap := store B.heap a ⟨f v, firstAddr l₂⟩ }, ?_,
    h.update (seg_append.mpr ⟨m, h₁.congr ?_, hm, next, ?_, h₂.congr ?_⟩) ?_ (fun _ _ => rfl) ?_ ?_⟩
  · rw [modify, hcell]
    rfl
  · exact fun c hc => hother c (hne c hc a List.mem_cons_self)
  · rw [h₂.first]
    exact store_self
  · intro c hc
    refine hother c ?_
    rintro rfl
    exact (List.nodup_cons.mp hd₂).1 hc
  · rw [haddrs]
    exact h.distinct b
  · intro c hc
    rw [haddrs] at hc
    exact .inl hc
  · intro b' hb' c hc
    refine hother c ?_
    rintro rfl
    refine h.apart b' b hb' _ hc ?_
    rw [hb, addrs_append]
    exact List.mem_append_right _ List.mem_cons_self

/-! ## The pointer to a pointer

`row` is one bucket seen as a list of `OsTransport.Lib.Linked`.  Under that view the walk with a
pointer to a pointer is the walk with the cell before, so its rule is the rule of `unlink`. -/

/-- A bucket as a list with a tail, and a count that counts nothing. -/
def row (B : Buckets ν) (b : Nat) (tail : Option Addr) : Linked 0 ν := ⟨B.heap, B.slot b, tail, 0#0⟩

/-- Where the pointer is when `prev` is the cell just passed. -/
def refOf (b : Nat) : (prev : Option Addr) → Ref
  | none => .slot b
  | some a => .next a

/-- The table once the list of bucket `b` has become `L`. -/
def setRow (B : Buckets ν) (b : Nat) (L : Linked 0 ν) : Buckets ν :=
  ⟨L.heap, Function.update B.slot b L.head⟩

/-- Redirecting what the pointer points at is taking the cell out of the chain. -/
theorem write_eq (prev : Option Addr) (next tail : Option Addr) :
    ((B.write (refOf b prev) next).map fun B' => { B' with heap := free B'.heap a })
      = ((B.row b tail).unlink prev a next).map (B.setRow b) := by
  cases prev with
  | none => rfl
  | some c =>
    show ((setNext B.heap c next).map _).map _ = ((setNext B.heap c next).map _).map _
    cases setNext B.heap c next with
    | none => rfl
    | some heap =>
      show some _ = some (Buckets.mk _ (Function.update B.slot b (B.slot b)))
      rw [Function.update_eq_self]

/-- The two walks agree. -/
theorem removeLoop_eq (pick : ν → Bool) (tail : Option Addr) : ∀ (fuel : Nat) (prev : Option Addr)
    {curr : Option Addr}, B.read (refOf b prev) = some curr →
    removeLoop pick B fuel (refOf b prev)
      = (popLoop pick (B.row b tail) fuel prev curr).map fun r => (r.1.isSome, B.setRow b r.2)
  | 0, prev, curr, _ => rfl
  | fuel + 1, prev, none, hread => by
      rw [removeLoop, hread, popLoop]
      show some (false, B) = some (false, Buckets.mk B.heap (Function.update B.slot b (B.slot b)))
      rw [Function.update_eq_self]
  | fuel + 1, prev, some a, hread => by
      rw [removeLoop, hread, popLoop]
      show (B.heap a).bind _ = Option.map _ ((B.heap a).bind _)
      cases ha : B.heap a with
      | none => rfl
      | some c =>
        simp only [Option.bind_some]
        by_cases hv : pick c.val = true
        · rw [if_pos hv, if_pos hv]
          have hwrite := write_eq (B := B) (b := b) (a := a) prev c.next tail
          cases hw : B.write (refOf b prev) c.next with
          | none =>
            rw [hw] at hwrite
            rw [Option.map_eq_none_iff.mp hwrite.symm]
            rfl
          | some B' =>
            rw [hw] at hwrite
            obtain ⟨L', hL', heq⟩ := Option.map_eq_some_iff.mp hwrite.symm
            rw [hL']
            exact congrArg (fun B' => some (true, B')) heq.symm
        · rw [if_neg hv, if_neg hv]
          refine removeLoop_eq pick tail fuel (some a) ?_
          show (B.heap a).map Cell.next = _
          rw [ha]
          rfl

theorem remove_eq (pick : ν → Bool) (fuel : Nat) (tail : Option Addr) :
    remove pick fuel B b
      = ((B.row b tail).popWhere pick fuel).map fun r => (r.1.isSome, B.setRow b r.2) :=
  removeLoop_eq pick tail fuel none rfl

theorem Holds.row (h : B.Holds cells) (b : Nat) : (B.row b (lastAddr (cells b))).Holds (cells b) :=
  ⟨h.path b, h.distinct b, rfl⟩

/-- The first match of a bucket is taken out, if there is one. -/
theorem remove_spec (pick : ν → Bool) {fuel : Nat} (h : B.Holds cells)
    (hfuel : (cells b).length < fuel) :
    match Queue.popFirst (fun x => pick x.2) (cells b) with
    | none => remove pick fuel B b = some (false, B)
    | some (_, rest) => ∃ B', remove pick fuel B b = some (true, B') ∧
        B'.Holds (Function.update cells b rest) := by
  have hpop := popWhere_spec pick (h.row b) hfuel
  rw [remove_eq pick fuel (lastAddr (cells b))]
  cases hfirst : Queue.popFirst (fun x => pick x.2) (cells b) with
  | none =>
    rw [hfirst] at hpop
    rw [show Linked.popWhere pick fuel _ = _ from hpop]
    show some (false, Buckets.mk B.heap (Function.update B.slot b (B.slot b))) = some (false, B)
    rw [Function.update_eq_self]
  | some r =>
    rw [hfirst] at hpop
    obtain ⟨L', hL', hholds, -, hframe⟩ := hpop
    refine ⟨B.setRow b L', by rw [hL']; rfl, h.update ?_ hholds.distinct ?_ ?_ ?_⟩
    · show Seg L'.heap (Function.update B.slot b L'.head b) r.2 none
      rw [Function.update_self]
      exact hholds.path
    · exact fun b' hb => Function.update_of_ne hb ..
    · intro c hc
      obtain ⟨x, hx, rfl⟩ := List.mem_map.mp hc
      exact .inl (List.mem_map_of_mem (Queue.popFirst_rest_subset hfirst x hx))
    · intro b' hb c hc
      exact hframe c (h.apart b' b hb c hc)

end Buckets
