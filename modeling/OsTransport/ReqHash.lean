/-
  The table that maps a request id to its `RequestContext`.

  `req_hash` is an array of `REQ_HASH_SIZE` singly linked chains; a context lives in the chain
  `request_id % REQ_HASH_SIZE`, new ones are put in front, and a chain is searched and edited
  from its head.  Here a chain is a list.  `ReqHash` carries the two facts the code maintains:
  every context is in its own bucket, and no chain holds two contexts of one id, the latter
  because insertion only follows a failed `find` under the same hold of `req_hash_mutex` (so
  `insert` asks for that evidence).

  The table is used through `find` alone: the `find_*` lemmas say what each edit does to the
  context of the edited id and that it does nothing to any other, colliding or not.

  `pending_count` is a C `int` that is raised and lowered by `uint32_t` counts.  Here it is an
  integer, and every edit of it goes through `cInt`, the conversion to 32 bits: where the sum does
  not fit, the count wraps as it does in the source.  `cInt_eq` is how proofs get rid of it.
-/
import OsTransport.UserData
import Mathlib.Data.List.Basic
import Mathlib.Logic.Function.Basic

namespace OsTransport

/-- `REQ_HASH_SIZE`. -/
def reqHashSize : Nat := 1024

/-- `hash_req_id`. -/
def hashReqId (reqId : ReqId) : Nat := reqId.toNat % reqHashSize

/-! ## C integers

`cInt` and `cUint32` are the conversions to `int` and to `uint32_t`; both are the identity on what
fits. -/

-- irreducible, so that no proof unfolds the conversion by computing `2 ^ 32`

/-- The value of `x` as a C `int`: its low 32 bits, read as a signed number. -/
@[irreducible] def cInt (x : Int) : Int := x.bmod (2 ^ 32)

/-- The value of `x` as a `uint32_t`. -/
@[irreducible] def cUint32 (x : Int) : Int := x % 2 ^ 32

/-- A number that fits an `int` is itself. -/
theorem cInt_eq {x : Int} (hlo : -2 ^ 31 ≤ x) (hhi : x < 2 ^ 31) : cInt x = x := by
  unfold cInt
  exact Int.bmod_eq_of_le (by omega) (by omega)

/-- The conversion gives an `int`. -/
theorem cInt_range (x : Int) : -2 ^ 31 ≤ cInt x ∧ cInt x < 2 ^ 31 := by
  have hlo := Int.le_bmod (x := x) (m := 2 ^ 32) (by decide)
  have hhi := Int.bmod_lt (x := x) (m := 2 ^ 32) (by decide)
  unfold cInt
  omega

/-- The numbers that fit are those the conversion leaves alone. -/
theorem cInt_eq_iff {x : Int} : cInt x = x ↔ -2 ^ 31 ≤ x ∧ x < 2 ^ 31 :=
  ⟨fun h => h ▸ cInt_range x, fun h => cInt_eq h.1 h.2⟩

/-- A number that fits a `uint32_t` is itself. -/
theorem cUint32_eq {x : Int} (hlo : 0 ≤ x) (hhi : x < 2 ^ 32) : cUint32 x = x := by
  unfold cUint32
  exact Int.emod_eq_of_lt hlo hhi

/-! ## The table

Edits are given with what they make of `find`.  Nothing outside this section looks into a bucket. -/

/-- `RequestContext`: the worker a request is bound to and how many of its tasks are still owed.
    A batch callback with its user data is one opaque token. -/
structure RequestContext where
  requestId : ReqId
  workerIdx : Nat
  pendingCount : Int
  batchCb : Option Nat
  deriving DecidableEq, Repr

/-- `ctx->pending_count += delta`. -/
def RequestContext.add (ctx : RequestContext) (delta : Int) : RequestContext :=
  { ctx with pendingCount := cInt (ctx.pendingCount + delta) }

/-- `pool->req_hash` with its well-formedness. -/
structure ReqHash where
  /-- The chain of each bucket, head first. -/
  bucket : Nat → List RequestContext
  /-- A context sits in the bucket of its id. -/
  home : ∀ h, ∀ c ∈ bucket h, hashReqId c.requestId = h
  /-- A chain holds an id at most once. -/
  unique : ∀ h, ((bucket h).map RequestContext.requestId).Nodup

namespace ReqHash

/-- The table of a fresh pool. -/
def empty : ReqHash where
  bucket _ := []
  home _ _ hc := nomatch hc
  unique _ := List.nodup_nil

/-- `find_req_context_locked`. -/
def find (t : ReqHash) (reqId : ReqId) : Option RequestContext :=
  (t.bucket (hashReqId reqId)).find? fun c => c.requestId == reqId

@[simp] theorem find_empty (r : ReqId) : empty.find r = none := rfl

theorem find_eq_none {t : ReqHash} {r : ReqId} :
    t.find r = none ↔ ∀ c ∈ t.bucket (hashReqId r), c.requestId ≠ r := by
  simp [find]

/-- `insert_req_context_locked`. -/
def insert (t : ReqHash) (ctx : RequestContext) (h : t.find ctx.requestId = none) : ReqHash where
  bucket := Function.update t.bucket (hashReqId ctx.requestId)
    (ctx :: t.bucket (hashReqId ctx.requestId))
  home := by
    intro b c hc
    by_cases hb : b = hashReqId ctx.requestId
    · subst hb
      rw [Function.update_self] at hc
      rcases List.mem_cons.mp hc with rfl | hc
      · rfl
      · exact t.home _ c hc
    · rw [Function.update_of_ne hb] at hc
      exact t.home b c hc
  unique := by
    intro b
    by_cases hb : b = hashReqId ctx.requestId
    · subst hb
      rw [Function.update_self, List.map_cons, List.nodup_cons]
      refine ⟨?_, t.unique _⟩
      intro hmem
      obtain ⟨c, hc, heq⟩ := List.mem_map.mp hmem
      exact find_eq_none.mp h c hc heq
    · rw [Function.update_of_ne hb]
      exact t.unique b

theorem find_insert {t : ReqHash} {ctx : RequestContext} (h : t.find ctx.requestId = none)
    (r : ReqId) : (t.insert ctx h).find r = if r = ctx.requestId then some ctx else t.find r := by
  unfold find insert
  by_cases hb : hashReqId r = hashReqId ctx.requestId
  · simp only [hb, Function.update_self, List.find?_cons]
    by_cases hr : r = ctx.requestId
    · simp [hr]
    · simp [hr, beq_eq_false_iff_ne.mpr (Ne.symm hr)]
  · simp only [Function.update_of_ne hb]
    rw [if_neg (fun hr => hb (by rw [hr]))]

/-- `remove_req_context_locked`: unlink the first context of the id. -/
def remove (t : ReqHash) (reqId : ReqId) : ReqHash where
  bucket := Function.update t.bucket (hashReqId reqId)
    ((t.bucket (hashReqId reqId)).eraseP fun c => c.requestId == reqId)
  home := by
    intro b c hc
    by_cases hb : b = hashReqId reqId
    · subst hb
      rw [Function.update_self] at hc
      exact t.home _ c (List.mem_of_mem_eraseP hc)
    · rw [Function.update_of_ne hb] at hc
      exact t.home b c hc
  unique := by
    intro b
    by_cases hb : b = hashReqId reqId
    · subst hb
      rw [Function.update_self]
      exact (t.unique _).sublist (List.eraseP_sublist.map _)
    · rw [Function.update_of_ne hb]
      exact t.unique b

/-- Unlinking the first context of an id from a chain without repetitions unlinks the only one. -/
theorem find?_eraseP {l : List RequestContext} (hl : (l.map RequestContext.requestId).Nodup)
    (r r' : ReqId) :
    (l.eraseP fun c => c.requestId == r).find? (fun c => c.requestId == r')
      = if r' = r then none else l.find? fun c => c.requestId == r' := by
  induction l with
  | nil => simp
  | cons c l ih =>
    obtain ⟨hc, hl'⟩ := List.nodup_cons.mp hl
    by_cases hcr : c.requestId = r
    · rw [List.eraseP_cons_of_pos (by simpa using hcr)]
      by_cases hr : r' = r
      · subst hr
        rw [if_pos rfl, List.find?_eq_none]
        intro x hx hxr
        exact hc (List.mem_map.mpr ⟨x, hx, by rw [hcr]; simpa using hxr⟩)
      · rw [if_neg hr, List.find?_cons_of_neg (by simpa [hcr] using Ne.symm hr)]
    · rw [List.eraseP_cons_of_neg (by simpa using hcr)]
      by_cases hcr' : c.requestId = r'
      · have hr : r' ≠ r := fun h => hcr (hcr'.trans h)
        rw [if_neg hr, List.find?_cons_of_pos (by simpa using hcr'),
          List.find?_cons_of_pos (by simpa using hcr')]
      · rw [List.find?_cons_of_neg (by simpa using hcr'), ih hl',
          List.find?_cons_of_neg (by simpa using hcr')]

theorem find_remove (t : ReqHash) (r r' : ReqId) :
    (t.remove r).find r' = if r' = r then none else t.find r' := by
  unfold find remove
  by_cases hb : hashReqId r' = hashReqId r
  · simp only [hb, Function.update_self]
    exact find?_eraseP (t.unique _) r r'
  · simp only [Function.update_of_ne hb]
    rw [if_neg (fun hr => hb (by rw [hr]))]

/-- `ctx->pending_count += delta` on the context `find` returns. -/
def addPending (t : ReqHash) (reqId : ReqId) (delta : Int) : ReqHash where
  bucket := Function.update t.bucket (hashReqId reqId)
    ((t.bucket (hashReqId reqId)).map fun c =>
      if c.requestId = reqId then c.add delta else c)
  home := by
    intro b c hc
    by_cases hb : b = hashReqId reqId
    · subst hb
      rw [Function.update_self] at hc
      obtain ⟨c', hc', rfl⟩ := List.mem_map.mp hc
      split <;> exact t.home _ c' hc'
    · rw [Function.update_of_ne hb] at hc
      exact t.home b c hc
  unique := by
    intro b
    by_cases hb : b = hashReqId reqId
    · subst hb
      rw [Function.update_self, List.map_map]
      convert t.unique (hashReqId reqId) using 2
      funext c
      simp only [Function.comp_apply]
      split <;> rfl
    · rw [Function.update_of_ne hb]
      exact t.unique b

theorem find_addPending (t : ReqHash) (r r' : ReqId) (delta : Int) :
    (t.addPending r delta).find r' =
      if r' = r then (t.find r).map fun c => c.add delta else t.find r' := by
  unfold find addPending
  by_cases hb : hashReqId r' = hashReqId r
  · simp only [hb, Function.update_self]
    have hmap : ∀ l : List RequestContext,
        (l.map fun c => if c.requestId = r then c.add delta else c).find?
            (fun c => c.requestId == r') =
        if r' = r then (l.find? fun c => c.requestId == r).map fun c => c.add delta
        else l.find? fun c => c.requestId == r' := by
      intro l
      induction l with
      | nil => simp
      | cons c l ih =>
        by_cases hcr : c.requestId = r <;> by_cases hr : r' = r <;>
          by_cases hcr' : c.requestId = r' <;> simp_all [RequestContext.add]
    exact hmap _
  · simp only [Function.update_of_ne hb]
    rw [if_neg (fun hr => hb (by rw [hr]))]

end ReqHash

end OsTransport
