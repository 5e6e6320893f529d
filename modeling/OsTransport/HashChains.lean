/-
  The request table in memory.

  `req_hash` is an array of chain heads, and the contexts are cells of one heap.  The three
  functions on it are here as the source has them: a search down the chain, an insertion at its
  head, and a removal by a pointer to a pointer; and so are the four sections under
  `req_hash_mutex` that use them.

  Three layers meet.

  1. **Memory** — `ReqTable`, on the buckets of `OsTransport.Lib.Buckets`.
  2. **Lists** — `ReqHash`, which the pool of `OsTransport.Pool` works on.  `Lists` says that the
     chains are its lists; `call_lists` that every section keeps that and has the result it has
     there.
  3. **The finite map** — `ContextMap`, from ids to contexts; `call_find` says that the lists are
     used as such a map.

  Beside the chains the table keeps the history of what was linked and unlinked, and `linkedOf`
  reads off it which context an id should have.  `req_hash_refines_map` is the statement about
  every run.

  The proof goes down the same three layers.  `call_find` is about lists and maps only.  `call_lists`
  takes the sections one by one (`submitTask_lists`, `updateBatch_lists`, `account_lists`,
  `afterCancel_lists`, `contextOf_lists`); each finds its context where `Located` says it is, and
  edits one bucket by a rule of the library, the others keeping their cells (`bucket_update`).
  `lists_reach` is the induction over a run.

  Two contexts of one bucket are no special case anywhere: what tells them apart is that a chain has
  no two contexts of one id (`ReqTable.Lists.requestId_unique`).
-/
import OsTransport.Pool
import OsTransport.Lib.Buckets
import OsTransport.Lib.Transition

namespace OsTransport

open Transition Linked

/-! ## The table

Chain heads, a heap of contexts, and the history of what was linked and unlinked.  `rounds` is the
fuel of the loops: one round more than contexts were ever linked. -/

/-- What `insert_req_context_locked` and `remove_req_context_locked` did. -/
inductive TableEvent
  | inserted (reqId : ReqId) (ctx : Addr)
  | removed (reqId : ReqId)
  deriving DecidableEq, Repr

/-- The context of `r` after an event, if it was `ctx` before. -/
def TableEvent.context (r : ReqId) (ctx : Option Addr) : TableEvent → Option Addr
  | .inserted reqId ctx' => if reqId = r then some ctx' else ctx
  | .removed reqId => if reqId = r then none else ctx

/-- The context of `r` that was inserted, and not removed since. -/
def linkedOf (r : ReqId) (log : List TableEvent) : Option Addr :=
  log.foldl (TableEvent.context r) none

def TableEvent.inserts : TableEvent → Bool
  | .inserted _ _ => true
  | .removed _ => false

/-- `pool->req_hash`, and its history. -/
structure ReqTable where
  reqHash : Buckets RequestContext
  log : List TableEvent

namespace ReqTable

/-- `memset(pool->req_hash, 0, sizeof(pool->req_hash))`. -/
def fresh : ReqTable := ⟨.empty fun _ => none, []⟩

variable (s : ReqTable)

/-- The rounds a loop over a chain is given.  A loop that takes more has met a context twice, and
    never ends. -/
def rounds : Nat := s.log.countP TableEvent.inserts + 1

/-! ### The three functions -/

/-- `find_req_context_locked`. -/
def findReqContextLocked (reqId : ReqId) : Option (Option Addr) :=
  Buckets.find (fun ctx => ctx.requestId == reqId) s.rounds s.reqHash (hashReqId reqId)

/-- `insert_req_context_locked`. -/
def insertReqContextLocked (ctx : Addr) : Option ReqTable :=
  match s.reqHash.heap ctx with
  | none => none
  | some c => (s.reqHash.pushFront (hashReqId c.val.requestId) ctx).map fun reqHash =>
      ⟨reqHash, s.log ++ [.inserted c.val.requestId ctx]⟩

/-- `remove_req_context_locked`. -/
def removeReqContextLocked (reqId : ReqId) : Option (ReqTable × Bool) :=
  (Buckets.remove (fun ctx => ctx.requestId == reqId) s.rounds s.reqHash (hashReqId reqId)).map
    fun r => (⟨r.2, if r.1 then s.log ++ [.removed reqId] else s.log⟩, r.1)

/-! ### The sections that use them -/

/-- The context `malloc` returned, with its fields assigned. -/
def allocContext (newCtx : Addr) (ctx : RequestContext) : ReqTable :=
  { s with reqHash := { s.reqHash with heap := store s.reqHash.heap newCtx ⟨ctx, none⟩ } }

/-- `free(new_ctx)`. -/
def freeContext (newCtx : Addr) : ReqTable :=
  { s with reqHash := { s.reqHash with heap := free s.reqHash.heap newCtx } }

/-- `ctx->pending_count += delta`. -/
def addPending (ctx : Addr) (delta : Int) : Option ReqTable :=
  (s.reqHash.modify ctx fun c => c.add delta).map fun reqHash => { s with reqHash }

/-- `thread_pool_submit_task` from the allocation of `new_ctx` on.  Without memory it has queued
    nothing and returns `0`. -/
def submitTask (newCtx : Option Addr) (reqId : ReqId) (workerIdx : Nat) : Option (ReqTable × Bool) :=
  match newCtx with
  | none => some (s, false)
  | some a =>
    let s := s.allocContext a ⟨reqId, workerIdx, 1, none⟩
    match s.findReqContextLocked reqId with
    | none => none
    | some (some ctx) => (s.addPending ctx 1).map fun s => (s.freeContext a, true)
    | some none => (s.insertReqContextLocked a).map fun s => (s, true)

/-- `update_batch_context`. -/
def updateBatchContext (newCtx : Option Addr) (reqId : ReqId) (workerIdx taskCount : Nat)
    (batchCb : Option Nat) : Option (ReqTable × Bool) :=
  match s.findReqContextLocked reqId with
  | none => none
  | some (some ctx) => (s.addPending ctx taskCount).map fun s => (s, true)
  | some none =>
    match newCtx with
    | none => some (s, false)
    | some a =>
      ((s.allocContext a ⟨reqId, workerIdx, cInt taskCount, batchCb⟩).insertReqContextLocked a).map
        fun s => (s, true)

/-- The locked section of `worker_process_task`, and the batch callback it hands out. -/
def accountTask (reqId : ReqId) : Option (ReqTable × Option Nat) :=
  match s.findReqContextLocked reqId with
  | none => none
  | some none => some (s, none)
  | some (some ctx) =>
    match s.addPending ctx (-1) with
    | none => none
    | some s =>
      match s.reqHash.heap ctx with
      | none => none
      | some c =>
        if c.val.pendingCount = 0 then
          (s.removeReqContextLocked reqId).map fun r => (r.1, c.val.batchCb)
        else some (s, none)

/-- `update_context_after_cancel`. -/
def updateContextAfterCancel (reqId : ReqId) (removed : Nat) : Option ReqTable :=
  match s.findReqContextLocked reqId with
  | none => none
  | some none => some s
  | some (some ctx) =>
    match s.reqHash.heap ctx with
    | none => none
    | some c =>
      if cUint32 removed ≥ cUint32 c.val.pendingCount then
        (s.removeReqContextLocked reqId).map Prod.fst
      else s.addPending ctx (-removed)

/-- The context `find_req_context_locked` returns, with what is in it. -/
def contextOf (reqId : ReqId) : Option (Option (Addr × RequestContext)) :=
  match s.findReqContextLocked reqId with
  | none => none
  | some none => some none
  | some (some ctx) => (s.reqHash.heap ctx).map fun c => some (ctx, c.val)

end ReqTable

/-! ## Calls, on every layer

The same calls, with the same results, on memory, on lists and on the map.  A new cell is one that
is not allocated; that is all that is asked of `malloc`. -/

/-- A locked section.  `newCtx` is what `malloc` returns. -/
inductive TableCall
  | submitTask (newCtx : Option Addr) (reqId : ReqId) (workerIdx : Nat)
  | updateBatch (newCtx : Option Addr) (reqId : ReqId) (workerIdx taskCount : Nat)
      (batchCb : Option Nat)
  | account (reqId : ReqId)
  | afterCancel (reqId : ReqId) (removed : Nat)
  /-- The look-up of a wake-up or a cancel. -/
  | lookUp (reqId : ReqId)

inductive TableResult
  | void
  | done (ok : Bool)
  | batchCb (cb : Option Nat)
  | worker (workerIdx : Option Nat)
  deriving DecidableEq, Repr

/-- A call on the table in memory. -/
def ReqTable.call (s : ReqTable) : TableCall → Option (ReqTable × TableResult)
  | .submitTask newCtx reqId w => (s.submitTask newCtx reqId w).map fun r => (r.1, .done r.2)
  | .updateBatch newCtx reqId w k cb =>
    (s.updateBatchContext newCtx reqId w k cb).map fun r => (r.1, .done r.2)
  | .account reqId => (s.accountTask reqId).map fun r => (r.1, .batchCb r.2)
  | .afterCancel reqId removed => (s.updateContextAfterCancel reqId removed).map fun s => (s, .void)
  | .lookUp reqId => (s.contextOf reqId).map fun r => (s, .worker (r.map fun x => x.2.workerIdx))

/-- The same call on the table of the pool. -/
def ReqHash.call (t : ReqHash) : TableCall → ReqHash × TableResult
  | .submitTask none _ _ => (t, .done false)
  | .submitTask (some _) reqId w => (updateBatchContext t true reqId w 1 none, .done true)
  | .updateBatch newCtx reqId w k cb =>
    (updateBatchContext t newCtx.isSome reqId w k cb, .done ((t.find reqId).isSome || newCtx.isSome))
  | .account reqId => (accountTask t reqId, .batchCb (accountBatchCb t reqId))
  | .afterCancel reqId removed => (updateContextAfterCancel t reqId removed, .void)
  | .lookUp reqId => (t, .worker ((t.find reqId).map RequestContext.workerIdx))

/-- The finite map from ids to contexts. -/
abbrev ContextMap := ReqId → Option RequestContext

/-- The same call on a map: it changes the context of its own id. -/
def ContextMap.call (m : ContextMap) : TableCall → ContextMap × TableResult
  | .submitTask none _ _ => (m, .done false)
  | .submitTask (some _) reqId w =>
    (Function.update m reqId (recordedContext true reqId w 1 none (m reqId)), .done true)
  | .updateBatch newCtx reqId w k cb =>
    (Function.update m reqId (recordedContext newCtx.isSome reqId w k cb (m reqId)),
      .done ((m reqId).isSome || newCtx.isSome))
  | .account reqId =>
    (Function.update m reqId (accountedContext (m reqId)),
      .batchCb ((m reqId).bind fun ctx =>
        if (ctx.add (-1)).pendingCount = 0 then ctx.batchCb else none))
  | .afterCancel reqId removed =>
    (Function.update m reqId (cancelledContext removed (m reqId)), .void)
  | .lookUp reqId => (m, .worker ((m reqId).map RequestContext.workerIdx))

/-- `malloc` returns a cell that is not allocated, or NULL. -/
def TableCall.Fresh (s : ReqTable) : TableCall → Prop
  | .submitTask newCtx _ _ => ∀ a, newCtx = some a → s.reqHash.heap a = none
  | .updateBatch newCtx _ _ _ _ => ∀ a, newCtx = some a → s.reqHash.heap a = none
  | _ => True

/-- All sequences of calls, in memory and on the map side by side. -/
def tableSystem : System (ReqTable × ContextMap) TableCall :=
  .ofFun (· = (.fresh, fun _ => none)) fun s c => (s.1.call c).map fun r => (r.1, (s.2.call c).1)

/-! ## The lists are used as a map

The upper of the two refinements: on `find` the edits are updates of a function. -/

/-- A table that differs at one id. -/
theorem find_update (t : ReqHash) {t' : ReqHash} {r : ReqId} {ctx : Option RequestContext}
    (h : ∀ r', t'.find r' = if r' = r then ctx else t.find r') :
    t'.find = Function.update t.find r ctx := by
  funext r'
  rw [h, Function.update_apply]

/-- What a call does to the table is what it does to the map of its entries. -/
theorem call_find (t : ReqHash) (c : TableCall) :
    ContextMap.call t.find c = ((t.call c).1.find, (t.call c).2) := by
  cases c with
  | submitTask newCtx reqId w =>
    cases newCtx with
    | none => rfl
    | some a =>
      rw [ContextMap.call, ReqHash.call]
      rw [find_update t fun r' => find_updateBatchContext t true reqId r' w 1 none]
  | updateBatch newCtx reqId w k cb =>
    rw [ContextMap.call, ReqHash.call]
    rw [find_update t fun r' => find_updateBatchContext t newCtx.isSome reqId r' w k cb]
  | account reqId =>
    rw [ContextMap.call, ReqHash.call]
    rw [find_update t fun r' => find_accountTask t reqId r', accountBatchCb]
    cases t.find reqId <;> rfl
  | afterCancel reqId removed =>
    rw [ContextMap.call, ReqHash.call]
    rw [find_update t fun r' => find_updateContextAfterCancel t reqId r' removed]
  | lookUp reqId => rfl

/-! ## Memory holds the lists

`Located` cuts the bucket of an id at its context.  From that follow what a search finds, what an
edit changes and what a removal leaves. -/

/-- Which context of a chain has which id. -/
def keys (l : List (Addr × RequestContext)) : List (Addr × ReqId) :=
  l.map fun x => (x.1, x.2.requestId)

/-- The chains of the table are the lists of `t`, and the history tells which context an id has. -/
structure ReqTable.Lists (s : ReqTable) (t : ReqHash) (cells : Nat → List (Addr × RequestContext)) :
    Prop where
  holds : s.reqHash.Holds cells
  bucket : ∀ b, t.bucket b = (cells b).map Prod.snd
  linked : ∀ r a, linkedOf r s.log = some a ↔ (a, r) ∈ keys (cells (hashReqId r))
  rounds : ∀ b, (cells b).length < s.rounds

/-- The fresh table has an empty list in every bucket. -/
theorem lists_fresh : ReqTable.fresh.Lists .empty fun _ => [] where
  holds := Buckets.holds_empty _
  bucket _ := rfl
  linked r a := by
    rw [show linkedOf r ReqTable.fresh.log = none from rfl, keys, List.map_nil]
    constructor <;> intro h <;> cases h
  rounds _ := Nat.zero_lt_one

theorem linkedOf_append (r : ReqId) (log : List TableEvent) (e : TableEvent) :
    linkedOf r (log ++ [e]) = e.context r (linkedOf r log) := List.foldl_concat ..

/-- Where the context of an id is: in its bucket, the only one of the id.  The list is cut at the
    context, which is the form that every edit of a chain needs. -/
structure Located (cells : Nat → List (Addr × RequestContext)) (r : ReqId) (a : Addr)
    (ctx : RequestContext) (l₁ l₂ : List (Addr × RequestContext)) : Prop where
  chain : cells (hashReqId r) = l₁ ++ (a, ctx) :: l₂
  requestId : ctx.requestId = r
  before : ∀ x ∈ l₁, x.2.requestId ≠ r
  behind : ∀ x ∈ l₂, x.2.requestId ≠ r

section Lists

variable {s : ReqTable} {t : ReqHash} {cells : Nat → List (Addr × RequestContext)} {r : ReqId}
  {a : Addr} {ctx : RequestContext} {l₁ l₂ : List (Addr × RequestContext)}

/-- No id is twice in a bucket. -/
theorem ReqTable.Lists.requestId_unique (h : s.Lists t cells) (b : Nat) :
    ((cells b).map fun x : Addr × RequestContext => x.2.requestId).Nodup := by
  have hunique := t.unique b
  rw [h.bucket, List.map_map] at hunique
  exact hunique

/-- A lookup finds the cell of its id in the bucket of its hash. -/
theorem ReqTable.Lists.find_eq (h : s.Lists t cells) (r : ReqId) :
    t.find r = ((cells (hashReqId r)).find? fun x => x.2.requestId == r).map Prod.snd := by
  rw [ReqHash.find, h.bucket, List.find?_map]
  rfl

/-- The search goes down the chain to the first context of the id. -/
theorem ReqTable.Lists.search (h : s.Lists t cells) (r : ReqId) :
    s.findReqContextLocked r
      = some (((cells (hashReqId r)).find? fun x => x.2.requestId == r).map Prod.fst) :=
  Buckets.find_spec (fun ctx : RequestContext => ctx.requestId == r) h.holds (h.rounds _)

/-- An id without context is not found. -/
theorem ReqTable.Lists.find_none (h : s.Lists t cells) (hr : t.find r = none) :
    s.findReqContextLocked r = some none ∧ linkedOf r s.log = none := by
  rw [h.find_eq, Option.map_eq_none_iff] at hr
  constructor
  · rw [h.search, hr]
    rfl
  · rw [Option.eq_none_iff_forall_ne_some]
    intro a hlinked
    obtain ⟨x, hmem, heq⟩ := List.mem_map.mp ((h.linked r a).mp hlinked)
    have hid : x.2.requestId = r := congrArg Prod.snd heq
    exact List.find?_eq_none.mp hr x hmem (beq_iff_eq.mpr hid)

/-- One with a context has it in one place. -/
theorem ReqTable.Lists.find_some (h : s.Lists t cells) (hr : t.find r = some ctx) :
    ∃ a l₁ l₂, Located cells r a ctx l₁ l₂ := by
  rw [h.find_eq, Option.map_eq_some_iff] at hr
  obtain ⟨⟨a, ctx'⟩, hfind, rfl⟩ := hr
  obtain ⟨hid, l₁, l₂, hchain, hbefore⟩ := List.find?_eq_some_iff_append.mp hfind
  have hid : ctx'.requestId = r := eq_of_beq hid
  refine ⟨a, l₁, l₂, hchain, hid, fun x hx => ?_, fun x hx heq => ?_⟩
  · simpa using hbefore x hx
  · have hunique := h.requestId_unique (hashReqId r)
    rw [hchain, List.map_append, List.map_cons] at hunique
    refine (List.nodup_cons.mp (List.nodup_append.mp hunique).2.1).1 ?_
    exact List.mem_map.mpr ⟨x, hx, heq.trans hid.symm⟩

/-- A located context is the one that a search of its bucket finds. -/
theorem Located.find? (hloc : Located cells r a ctx l₁ l₂) :
    (cells (hashReqId r)).find? (fun x => x.2.requestId == r) = some (a, ctx) := by
  apply List.find?_eq_some_iff_append.mpr
  refine ⟨beq_iff_eq.mpr hloc.requestId, l₁, l₂, hloc.chain, fun x hx => ?_⟩
  simpa using hloc.before x hx

/-- It is the one that `find_req_context_locked` returns. -/
theorem Located.found (hloc : Located cells r a ctx l₁ l₂) (h : s.Lists t cells) :
    s.findReqContextLocked r = some (some a) := by
  rw [h.search, hloc.find?]
  rfl

/-- It is the one linked last for its id. -/
theorem Located.linked (hloc : Located cells r a ctx l₁ l₂) (h : s.Lists t cells) :
    linkedOf r s.log = some a := by
  apply (h.linked r a).mpr
  rw [hloc.chain]
  refine List.mem_map.mpr ⟨(a, ctx), List.mem_append_right _ List.mem_cons_self, ?_⟩
  exact Prod.ext rfl hloc.requestId

/-- Its cell points to the next one in the bucket. -/
theorem Located.heap (hloc : Located cells r a ctx l₁ l₂) (h : s.Lists t cells) :
    s.reqHash.heap a = some ⟨ctx, firstAddr l₂⟩ := h.holds.cell hloc.chain

/-! ### Edits of one bucket -/

/-- Both tables edit the bucket of `r` alone. -/
theorem bucket_update (h : s.Lists t cells) {row : List RequestContext}
    {l : List (Addr × RequestContext)} (hl : row = l.map Prod.snd) (b : Nat) :
    Function.update t.bucket (hashReqId r) row b
      = (Function.update cells (hashReqId r) l b).map Prod.snd := by
  by_cases hb : b = hashReqId r
  · rw [hb, Function.update_self, Function.update_self, hl]
  · rw [Function.update_of_ne hb, Function.update_of_ne hb, h.bucket]

/-- A bucket that changes within the bound keeps all buckets within it. -/
theorem length_update {n : Nat} (hlen : ∀ b, (cells b).length < n) {b₀ : Nat}
    {l : List (Addr × RequestContext)} (hl : l.length < n) (b : Nat) :
    (Function.update cells b₀ l b).length < n :=
  (Function.forall_update_iff cells fun _ l => l.length < n).mpr ⟨hl, fun b _ => hlen b⟩ b

/-- A count is changed in place. -/
theorem ReqTable.Lists.addPending (h : s.Lists t cells) (hloc : Located cells r a ctx l₁ l₂)
    (delta : Int) :
    ∃ s', s.addPending a delta = some s' ∧ s'.Lists (t.addPending r delta)
      (Function.update cells (hashReqId r) (l₁ ++ (a, ctx.add delta) :: l₂)) := by
  obtain ⟨B, hB, hholds⟩ := Buckets.modify_spec h.holds hloc.chain fun c => c.add delta
  have hother : ∀ l : List (Addr × RequestContext), (∀ x ∈ l, x.2.requestId ≠ r) →
      (l.map Prod.snd).map (fun c => if c.requestId = r then c.add delta else c) = l.map Prod.snd := by
    intro l hl
    rw [List.map_map]
    exact List.map_congr_left fun x hx => if_neg (hl x hx)
  have hkeys : keys (l₁ ++ (a, ctx.add delta) :: l₂) = keys (cells (hashReqId r)) := by
    rw [hloc.chain, keys, keys, List.map_append, List.map_append]
    rfl
  have hlen : (l₁ ++ (a, ctx.add delta) :: l₂).length = (cells (hashReqId r)).length := by
    rw [hloc.chain, List.length_append, List.length_append]
    rfl
  refine ⟨{ s with reqHash := B }, ?_, hholds, bucket_update h ?_, fun r' a' => ?_,
    length_update h.rounds (hlen ▸ h.rounds _)⟩
  · show (s.reqHash.modify a fun c => c.add delta).map _ = _
    rw [hB]
    rfl
  · show (t.bucket (hashReqId r)).map (fun c => if c.requestId = r then c.add delta else c) = _
    rw [h.bucket, hloc.chain, List.map_append, List.map_append, List.map_append, hother l₁ hloc.before,
      List.map_cons, List.map_cons, List.map_cons, hother l₂ hloc.behind, if_pos hloc.requestId]
  · rw [h.linked]
    by_cases hb : hashReqId r' = hashReqId r
    · rw [hb, Function.update_self, hkeys]
    · rw [Function.update_of_ne hb]

/-- An id that was not found gets a context. -/
theorem ReqTable.Lists.insert (h : s.Lists t cells) (hfree : s.reqHash.heap a = none)
    (ctx : RequestContext) (hr : t.find ctx.requestId = none) :
    ∃ s' cells', (s.allocContext a ctx).insertReqContextLocked a = some s' ∧
      s'.Lists (t.insert ctx hr) cells' := by
  obtain ⟨B, hB, hholds⟩ := Buckets.pushFront_spec h.holds hfree (hashReqId ctx.requestId) ctx none
  have hcell : (s.allocContext a ctx).reqHash.heap a = some ⟨ctx, none⟩ := store_self
  have hrounds : s.rounds + 1
      = (s.log ++ [TableEvent.inserted ctx.requestId a]).countP TableEvent.inserts + 1 := by
    rw [List.countP_append]
    rfl
  refine ⟨⟨B, s.log ++ [.inserted ctx.requestId a]⟩, _, ?_, hholds, bucket_update h ?_, fun r' a' => ?_, ?_⟩
  · rw [ReqTable.insertReqContextLocked, hcell]
    show ((s.allocContext a ctx).reqHash.pushFront (hashReqId ctx.requestId) a).map _ = _
    rw [show (s.allocContext a ctx).reqHash.pushFront (hashReqId ctx.requestId) a = some B from hB]
    rfl
  · rw [List.map_cons, h.bucket]
  · show linkedOf r' (s.log ++ [_]) = _ ↔ _
    rw [linkedOf_append, TableEvent.context]
    by_cases hid : ctx.requestId = r'
    · subst hid
      rw [if_pos rfl, Function.update_self, keys, List.map_cons, List.mem_cons]
      constructor
      · intro heq
        exact .inl (Prod.ext (Option.some.inj heq).symm rfl)
      · rintro (heq | hmem)
        · exact congrArg some (congrArg Prod.fst heq).symm
        · -- it had none before
          have hold := (h.linked _ a').mpr hmem
          rw [(h.find_none hr).2] at hold
          cases hold
    · rw [if_neg hid, h.linked]
      by_cases hb : hashReqId r' = hashReqId ctx.requestId
      · rw [hb, Function.update_self, keys, keys, List.map_cons, List.mem_cons]
        refine ⟨.inr, fun hmem => hmem.resolve_left fun heq => hid (congrArg Prod.snd heq).symm⟩
      · rw [Function.update_of_ne hb]
  · show ∀ b, (Function.update cells _ _ b).length
      < (s.log ++ [TableEvent.inserted ctx.requestId a]).countP TableEvent.inserts + 1
    rw [← hrounds]
    refine length_update (fun b => Nat.lt_succ_of_lt (h.rounds b)) ?_
    rw [List.length_cons]
    exact Nat.succ_lt_succ (h.rounds _)

/-- Without it, its bucket is what was before it and what was after. -/
theorem Located.remove_bucket (hloc : Located cells r a ctx l₁ l₂) (h : s.Lists t cells) (b : Nat) :
    (t.remove r).bucket b = (Function.update cells (hashReqId r) (l₁ ++ l₂) b).map Prod.snd := by
  have herase : ((ctx :: l₂.map Prod.snd).eraseP fun c => c.requestId == r) = l₂.map Prod.snd :=
    List.eraseP_cons_of_pos (by simpa using hloc.requestId)
  refine bucket_update h ?_ b
  rw [h.bucket, hloc.chain, List.map_append, List.map_append, List.map_cons,
    List.eraseP_append_right _ fun c hc => ?_, herase]
  obtain ⟨x, hx, rfl⟩ := List.mem_map.mp hc
  simpa using hloc.before x hx

/-- The context of an id is unlinked. -/
theorem ReqTable.Lists.remove (h : s.Lists t cells) (hloc : Located cells r a ctx l₁ l₂) :
    ∃ s', s.removeReqContextLocked r = some (s', true) ∧ s'.log = s.log ++ [.removed r] ∧
      s'.Lists (t.remove r) (Function.update cells (hashReqId r) (l₁ ++ l₂)) := by
  have hpop : Queue.popFirst (fun x : Addr × RequestContext => x.2.requestId == r) (cells (hashReqId r))
      = some ((a, ctx), l₁ ++ l₂) := by
    rw [hloc.chain]
    exact Queue.popFirst_split (fun x hx => by simpa using hloc.before x hx)
      (beq_iff_eq.mpr hloc.requestId)
  have hremove := Buckets.remove_spec (fun c => c.requestId == r) h.holds (h.rounds (hashReqId r))
  rw [hpop] at hremove
  obtain ⟨B, hB, hholds⟩ := hremove
  have hcount : s.rounds = (s.log ++ [TableEvent.removed r]).countP TableEvent.inserts + 1 := by
    rw [List.countP_append]
    rfl
  refine ⟨⟨B, s.log ++ [.removed r]⟩, ?_, rfl, hholds, hloc.remove_bucket h, fun r' a' => ?_, ?_⟩
  · rw [ReqTable.removeReqContextLocked, hB]
    rfl
  · show linkedOf r' (s.log ++ [_]) = _ ↔ _
    rw [linkedOf_append, TableEvent.context]
    by_cases hid : r = r'
    · subst hid
      rw [if_pos rfl, Function.update_self]
      refine ⟨fun heq => (by cases heq), fun hmem => ?_⟩
      obtain ⟨x, hx, heq⟩ := List.mem_map.mp hmem
      have hxid : x.2.requestId = r := congrArg Prod.snd heq
      rcases List.mem_append.mp hx with hx | hx
      · exact absurd hxid (hloc.before x hx)
      · exact absurd hxid (hloc.behind x hx)
    · rw [if_neg hid, h.linked]
      by_cases hb : hashReqId r' = hashReqId r
      · have hne : (a', r') ≠ (a, ctx.requestId) := fun heq =>
          hid (hloc.requestId.symm.trans (congrArg Prod.snd heq).symm)
        rw [hb, Function.update_self, hloc.chain, keys, keys, List.map_append, List.map_append,
          List.map_cons, List.mem_append, List.mem_append, List.mem_cons]
        exact ⟨Or.imp_right fun hmem => hmem.resolve_left hne, Or.imp_right .inr⟩
      · rw [Function.update_of_ne hb]
  · show ∀ b, (Function.update cells _ _ b).length
      < (s.log ++ [TableEvent.removed r]).countP TableEvent.inserts + 1
    rw [← hcount]
    refine length_update h.rounds ?_
    have hlen := h.rounds (hashReqId r)
    rw [hloc.chain, List.length_append, List.length_cons] at hlen
    rw [List.length_append]
    omega

/-- Without one the pointer runs down the chain, and nothing happens. -/
theorem ReqTable.Lists.remove_none (h : s.Lists t cells) (hr : t.find r = none) :
    s.removeReqContextLocked r = some (s, false) := by
  have hremove := Buckets.remove_spec (fun c => c.requestId == r) h.holds (h.rounds (hashReqId r))
  rw [h.find_eq, Option.map_eq_none_iff] at hr
  have hpop : Queue.popFirst (fun x : Addr × RequestContext => x.2.requestId == r) (cells (hashReqId r))
      = none := by
    apply Queue.popFirst_eq_none.mpr
    intro x hx
    simpa using List.find?_eq_none.mp hr x hx
  rw [hpop] at hremove
  rw [ReqTable.removeReqContextLocked, hremove]
  rfl

/-- A cell of no chain may be filled or freed. -/
theorem ReqTable.Lists.outside (h : s.Lists t cells) (hout : ∀ b, a ∉ addrs (cells b))
    {heap : Heap RequestContext} (hheap : ∀ c, c ≠ a → heap c = s.reqHash.heap c) :
    ReqTable.Lists { s with reqHash := { s.reqHash with heap } } t cells := by
  refine ⟨⟨fun b => ?_, h.holds.distinct, h.holds.apart⟩, h.bucket, h.linked, h.rounds⟩
  refine (h.holds.path b).congr fun c hc => hheap c ?_
  rintro rfl
  exact hout b hc

/-! ### The sections -/

/-- An existing context has its count raised; worker and callback stay. -/
theorem updateBatchContext_some (hr : t.find r = some ctx) (alloc : Bool) (w k : Nat) (cb : Option Nat) :
    updateBatchContext t alloc r w k cb = t.addPending r k := by
  unfold updateBatchContext
  split
  · rfl
  · rename_i hnone
    rw [hr] at hnone
    cases hnone

/-- A new one takes worker, count and callback of the submission, if there is memory. -/
theorem updateBatchContext_none (hr : t.find r = none) (alloc : Bool) (w k : Nat) (cb : Option Nat) :
    updateBatchContext t alloc r w k cb = if alloc then t.insert ⟨r, w, cInt k, cb⟩ hr else t := by
  unfold updateBatchContext
  split
  · rename_i hsome
    rw [hr] at hsome
    cases hsome
  · rfl

/-- `thread_pool_submit_task` on the chains does what it does on the table. -/
theorem submitTask_lists (h : s.Lists t cells) (hfree : s.reqHash.heap a = none) (w : Nat) :
    ∃ s' cells', s.submitTask (some a) r w = some (s', true) ∧
      s'.Lists (updateBatchContext t true r w 1 none) cells' := by
  have hout : ∀ b, a ∉ addrs (cells b) := fun b ha => (h.holds.path b).allocated a ha hfree
  have halloc : (s.allocContext a ⟨r, w, 1, none⟩).Lists t cells :=
    h.outside hout fun c hc => store_of_ne hc
  cases hr : t.find r with
  | none =>
    obtain ⟨s', cells', hinsert, hlists⟩ := h.insert hfree ⟨r, w, 1, none⟩ hr
    refine ⟨s', cells', ?_, ?_⟩
    · simp only [ReqTable.submitTask, (halloc.find_none hr).1, hinsert, Option.map_some]
    · have hone : cInt (1 : Nat) = 1 := cInt_eq (by decide) (by decide)
      rw [updateBatchContext_none hr, hone]
      exact hlists
  | some ctx =>
    obtain ⟨a', l₁, l₂, hloc⟩ := halloc.find_some hr
    obtain ⟨s', hadd, hlists⟩ := halloc.addPending hloc 1
    -- the new context is in no chain
    have hout' : ∀ b, a ∉ addrs (Function.update cells (hashReqId r) (l₁ ++ (a', ctx.add 1) :: l₂) b) := by
      refine (Function.forall_update_iff cells fun _ l => a ∉ addrs l).mpr ⟨?_, fun b _ => hout b⟩
      have hold := hout (hashReqId r)
      rw [hloc.chain, addrs_append] at hold
      rw [addrs_append]
      exact hold
    refine ⟨s'.freeContext a, Function.update cells (hashReqId r) (l₁ ++ (a', ctx.add 1) :: l₂), ?_, ?_⟩
    · simp only [ReqTable.submitTask, hloc.found halloc, hadd, Option.map_some]
    · rw [updateBatchContext_some hr]
      exact hlists.outside hout' fun c hc => free_of_ne hc

/-- So does `update_batch_context`. -/
theorem updateBatch_lists (h : s.Lists t cells) {newCtx : Option Addr}
    (hfree : ∀ a, newCtx = some a → s.reqHash.heap a = none) (w k : Nat) (cb : Option Nat) :
    ∃ s' cells', s.updateBatchContext newCtx r w k cb
        = some (s', (t.find r).isSome || newCtx.isSome) ∧
      s'.Lists (updateBatchContext t newCtx.isSome r w k cb) cells' := by
  cases hr : t.find r with
  | none =>
    rw [updateBatchContext_none hr]
    cases newCtx with
    | none =>
      refine ⟨s, cells, ?_, h⟩
      simp only [ReqTable.updateBatchContext, (h.find_none hr).1]
      rfl
    | some a =>
      obtain ⟨s', cells', hinsert, hlists⟩ := h.insert (hfree a rfl) ⟨r, w, cInt k, cb⟩ hr
      refine ⟨s', cells', ?_, hlists⟩
      simp only [ReqTable.updateBatchContext, (h.find_none hr).1, hinsert, Option.map_some]
      rfl
  | some ctx =>
    obtain ⟨a, l₁, l₂, hloc⟩ := h.find_some hr
    obtain ⟨s', hadd, hlists⟩ := h.addPending hloc k
    rw [updateBatchContext_some hr]
    refine ⟨s', _, ?_, hlists⟩
    simp only [ReqTable.updateBatchContext, hloc.found h, hadd, Option.map_some]
    rfl

/-- So does the count-down of `worker_process_task`. -/
theorem account_lists (h : s.Lists t cells) (r : ReqId) :
    ∃ s' cells', s.accountTask r = some (s', accountBatchCb t r) ∧
      s'.Lists (accountTask t r) cells' := by
  unfold accountBatchCb accountTask
  cases hr : t.find r with
  | none =>
    refine ⟨s, cells, ?_, h⟩
    simp only [ReqTable.accountTask, (h.find_none hr).1]
  | some ctx =>
    obtain ⟨a, l₁, l₂, hloc⟩ := h.find_some hr
    obtain ⟨s₁, hadd, hlists⟩ := h.addPending hloc (-1)
    have hloc₁ : Located (Function.update cells (hashReqId r) (l₁ ++ (a, ctx.add (-1)) :: l₂)) r a
        (ctx.add (-1)) l₁ l₂ :=
      ⟨Function.update_self .., hloc.requestId, hloc.before, hloc.behind⟩
    have hcell := hloc₁.heap hlists
    by_cases hzero : (ctx.add (-1)).pendingCount = 0
    · obtain ⟨s', hremove, -, hlists'⟩ := hlists.remove hloc₁
      rw [Function.update_idem] at hlists'
      refine ⟨s', _, ?_, ⟨hlists'.holds, ?_, hlists'.linked, hlists'.rounds⟩⟩
      · simp only [ReqTable.accountTask, hloc.found h, hadd, hcell, if_pos hzero, hremove,
          Option.map_some]
        rfl
      · simp only [if_pos hzero]
        exact hloc.remove_bucket h
    · refine ⟨s₁, Function.update cells (hashReqId r) (l₁ ++ (a, ctx.add (-1)) :: l₂), ?_, ?_⟩
      · simp only [ReqTable.accountTask, hloc.found h, hadd, hcell, if_neg hzero]
      · simp only [if_neg hzero]
        exact hlists

/-- So does the count-down of a cancel. -/
theorem afterCancel_lists (h : s.Lists t cells) (r : ReqId) (removed : Nat) :
    ∃ s' cells', s.updateContextAfterCancel r removed = some s' ∧
      s'.Lists (updateContextAfterCancel t r removed) cells' := by
  unfold updateContextAfterCancel
  cases hr : t.find r with
  | none =>
    refine ⟨s, cells, ?_, h⟩
    simp only [ReqTable.updateContextAfterCancel, (h.find_none hr).1]
  | some ctx =>
    obtain ⟨a, l₁, l₂, hloc⟩ := h.find_some hr
    have hcell := hloc.heap h
    by_cases hall : cUint32 removed ≥ cUint32 ctx.pendingCount
    · obtain ⟨s', hremove, -, hlists⟩ := h.remove hloc
      refine ⟨s', _, ?_, by simp only [if_pos hall]; exact hlists⟩
      simp only [ReqTable.updateContextAfterCancel, hloc.found h, hcell, if_pos hall, hremove,
        Option.map_some]
    · obtain ⟨s', hadd, hlists⟩ := h.addPending hloc (-removed)
      refine ⟨s', _, ?_, by simp only [if_neg hall]; exact hlists⟩
      simp only [ReqTable.updateContextAfterCancel, hloc.found h, hcell, if_neg hall, hadd]

/-- The search finds the context the map has, where the history says. -/
theorem contextOf_lists (h : s.Lists t cells) (r : ReqId) :
    ∃ found, s.contextOf r = some found ∧ found.map Prod.fst = linkedOf r s.log ∧
      found.map Prod.snd = t.find r := by
  unfold ReqTable.contextOf
  cases hr : t.find r with
  | none =>
    obtain ⟨hfind, hlinked⟩ := h.find_none hr
    exact ⟨none, by rw [hfind], hlinked.symm, rfl⟩
  | some ctx =>
    obtain ⟨a, l₁, l₂, hloc⟩ := h.find_some hr
    refine ⟨some (a, ctx), ?_, (hloc.linked h).symm, rfl⟩
    rw [hloc.found h]
    simp only [hloc.heap h, Option.map_some]

/-- Every section ends, with the result it has on the lists, and leaves their chains. -/
theorem call_lists (h : s.Lists t cells) {c : TableCall} (hfresh : c.Fresh s) :
    ∃ s' cells', s.call c = some (s', (t.call c).2) ∧ s'.Lists (t.call c).1 cells' := by
  cases c with
  | submitTask newCtx reqId w =>
    cases newCtx with
    | none => exact ⟨s, cells, rfl, h⟩
    | some a =>
      obtain ⟨s', cells', hcall, hlists⟩ := submitTask_lists (r := reqId) h (hfresh a rfl) w
      exact ⟨s', cells', by rw [ReqTable.call, hcall]; rfl, hlists⟩
  | updateBatch newCtx reqId w k cb =>
    obtain ⟨s', cells', hcall, hlists⟩ := updateBatch_lists (r := reqId) h hfresh w k cb
    exact ⟨s', cells', by rw [ReqTable.call, hcall]; rfl, hlists⟩
  | account reqId =>
    obtain ⟨s', cells', hcall, hlists⟩ := account_lists h reqId
    exact ⟨s', cells', by rw [ReqTable.call, hcall]; rfl, hlists⟩
  | afterCancel reqId removed =>
    obtain ⟨s', cells', hcall, hlists⟩ := afterCancel_lists h reqId removed
    exact ⟨s', cells', by rw [ReqTable.call, hcall]; rfl, hlists⟩
  | lookUp reqId =>
    obtain ⟨found, hfound, -, hctx⟩ := contextOf_lists h reqId
    refine ⟨s, cells, ?_, h⟩
    rw [ReqTable.call, hfound, ReqHash.call, ← hctx, Option.map_map]
    rfl

end Lists

/-! ## Every run

Both refinements along a run. -/

/-- The table in memory is the map `m`.  It speaks of what the three functions of the source do on
    the chains, and of the chains themselves. -/
structure ReqTable.Represents (s : ReqTable) (m : ContextMap) : Prop where
  /-- The chain of a slot ends, and meets no context twice; a context is in the chain of its own
      bucket, and no two contexts have one id. -/
  chains : ∃ cells : Nat → List (Addr × RequestContext),
    (∀ b, Seg s.reqHash.heap (s.reqHash.slot b) (cells b) none) ∧ (∀ b, (addrs (cells b)).Nodup) ∧
    (∀ b, ∀ x ∈ cells b, x.2.requestId.toNat % reqHashSize = b) ∧
    ∀ b b' x x', x ∈ cells b → x' ∈ cells b' → x.2.requestId = x'.2.requestId → x = x'
  /-- The search ends with the context that was inserted and not removed since, if there is one. -/
  find : ∀ r, ∃ found, s.contextOf r = some found ∧ found.map Prod.fst = linkedOf r s.log ∧
    found.map Prod.snd = m r
  /-- A removal makes the search fail, and no other. -/
  remove : ∀ r, ∃ s', s.removeReqContextLocked r = some (s', (m r).isSome) ∧
    ∀ r', s'.contextOf r' = if r' = r then some none else s.contextOf r'

section Run

variable {s : ReqTable} {t : ReqHash} {cells : Nat → List (Addr × RequestContext)} {m : ContextMap}

/-- Every context is in the chain of its hash, and no id has two. -/
theorem ReqTable.Lists.chains (h : s.Lists t cells) :
    (∀ b, ∀ x ∈ cells b, x.2.requestId.toNat % reqHashSize = b) ∧
    ∀ b b' x x', x ∈ cells b → x' ∈ cells b' → x.2.requestId = x'.2.requestId → x = x' := by
  have hhome : ∀ b, ∀ x ∈ cells b, hashReqId x.2.requestId = b := by
    intro b x hx
    refine t.home b x.2 ?_
    rw [h.bucket]
    exact List.mem_map_of_mem hx
  refine ⟨hhome, fun b b' x x' hx hx' hid => ?_⟩
  obtain rfl : b = b' := by
    rw [← hhome b x hx, ← hhome b' x' hx', hid]
  exact List.inj_on_of_nodup_map (h.requestId_unique b) hx hx' hid

/-- What the search finds is known from where and what it is. -/
theorem found_ext {α β : Type*} {x y : Option (α × β)} (h₁ : x.map Prod.fst = y.map Prod.fst)
    (h₂ : x.map Prod.snd = y.map Prod.snd) : x = y := by
  cases x with
  | none =>
    cases y with
    | none => rfl
    | some y => cases h₁
  | some x =>
    cases y with
    | none => cases h₁
    | some y => exact congrArg some (Prod.ext (Option.some.inj h₁) (Option.some.inj h₂))

/-- A removal takes one context out of the map. -/
theorem ReqTable.Lists.removed (h : s.Lists t cells) (r : ReqId) :
    ∃ s', s.removeReqContextLocked r = some (s', (t.find r).isSome) ∧
      ∀ r', s'.contextOf r' = if r' = r then some none else s.contextOf r' := by
  cases hr : t.find r with
  | none =>
    refine ⟨s, h.remove_none hr, fun r' => ?_⟩
    by_cases hid : r' = r
    · rw [if_pos hid, hid, ReqTable.contextOf, (h.find_none hr).1]
    · rw [if_neg hid]
  | some ctx =>
    obtain ⟨a, l₁, l₂, hloc⟩ := h.find_some hr
    obtain ⟨s', hremove, hlog, hlists⟩ := h.remove hloc
    refine ⟨s', hremove, fun r' => ?_⟩
    obtain ⟨found', hfound', haddr', hctx'⟩ := contextOf_lists hlists r'
    rw [hfound']
    rw [hlog, linkedOf_append, TableEvent.context] at haddr'
    rw [ReqHash.find_remove] at hctx'
    by_cases hid : r' = r
    · rw [if_pos hid] at hctx' ⊢
      rw [Option.map_eq_none_iff.mp hctx']
    · rw [if_neg (Ne.symm hid)] at haddr'
      rw [if_neg hid] at hctx' ⊢
      obtain ⟨found, hfound, haddr, hctx⟩ := contextOf_lists h r'
      rw [hfound, found_ext (haddr'.trans haddr.symm) (hctx'.trans hctx.symm)]

/-- The chains represent the map of their lookups. -/
theorem ReqTable.Lists.represents (h : s.Lists t cells) : s.Represents t.find where
  chains := ⟨cells, h.holds.path, h.holds.distinct, h.chains⟩
  find r := contextOf_lists h r
  remove r := h.removed r

/-- In every run memory holds lists that are used as the map. -/
theorem lists_reach {p : ReqTable × ContextMap}
    (h : tableSystem.Reach (fun p c => c.Fresh p.1) p) :
    ∃ t cells, p.1.Lists t cells ∧ p.2 = t.find := by
  refine h.invariant (I := fun p => ∃ t cells, p.1.Lists t cells ∧ p.2 = t.find) ?_ ?_
  · rintro p rfl
    exact ⟨.empty, _, lists_fresh, rfl⟩
  · rintro ⟨s, m⟩ c p' _ ⟨t, cells, hlists, hm⟩ hfresh hs
    obtain rfl : m = t.find := hm
    obtain ⟨s', cells', hcall, hlists'⟩ := call_lists hlists hfresh
    obtain ⟨r, hr, rfl⟩ := Option.map_eq_some_iff.mp hs
    rw [hcall] at hr
    obtain rfl := Option.some.inj hr
    exact ⟨(t.call c).1, cells', hlists', congrArg Prod.fst (call_find t c)⟩

/-- **The request hash refines a finite map.**  After every sequence of sections, whatever their ids
    and whatever `malloc` returns, the table in memory is the map they would have made, and the next
    section ends, with the result it has on the map. -/
theorem req_hash_refines_map (h : tableSystem.Reach (fun p c => c.Fresh p.1) (s, m)) :
    s.Represents m ∧ ∀ c : TableCall, c.Fresh s →
      ∃ s', s.call c = some (s', (m.call c).2) ∧ s'.Represents (m.call c).1 := by
  obtain ⟨t, cells, hlists, hm⟩ := lists_reach h
  obtain rfl : m = t.find := hm
  refine ⟨hlists.represents, fun c hfresh => ?_⟩
  obtain ⟨s', cells', hcall, hlists'⟩ := call_lists hlists hfresh
  rw [call_find]
  exact ⟨s', hcall, hlists'.represents⟩

end Run

def freshb (p : ReqTable × ContextMap) : TableCall → Bool
  | .submitTask newCtx _ _ => newCtx.all fun a => (p.1.reqHash.heap a).isNone
  | .updateBatch newCtx _ _ _ _ => newCtx.all fun a => (p.1.reqHash.heap a).isNone
  | _ => true

/-- The test that a new cell is free. -/
theorem fresh_of_b (p : ReqTable × ContextMap) (c : TableCall) (h : freshb p c = true) : c.Fresh p.1 := by
  cases c with
  | submitTask newCtx reqId w =>
    rintro a rfl
    exact Option.isNone_iff_eq_none.mp h
  | updateBatch newCtx reqId w k cb =>
    rintro a rfl
    exact Option.isNone_iff_eq_none.mp h
  | _ => trivial

/-- Three ids of one bucket.  The middle context of the chain is unlinked by its last task, and the
    memory of a context that was not needed is used for another id. -/
def threeOfOneBucket : List TableCall :=
  [.updateBatch (some 1) 7#64 0 2 none, .submitTask (some 2) 1031#64 1, .updateBatch (some 3) 2055#64 2 1 none,
    .submitTask (some 4) 7#64 0, .account 1031#64, .updateBatch none 1031#64 1 1 none,
    .updateBatch (some 4) 8#64 1 1 none, .afterCancel 2055#64 1, .lookUp 7#64]

/-- Of the three two are gone; the third has its own context, with its own count. -/
theorem req_hash_refines_map_collisions : ∃ (s : ReqTable) (m : ContextMap), s.Represents m ∧
    linkedOf 7#64 s.log = some 1 ∧ linkedOf 1031#64 s.log = none ∧ linkedOf 2055#64 s.log = none ∧
      (m 7#64).map RequestContext.pendingCount = some 3 := by
  have hrun : (exec freshb (fun s c => (s.1.call c).map fun r => (r.1, (s.2.call c).1))
      (.fresh, fun _ => none) threeOfOneBucket).any (fun p => decide (linkedOf 7#64 p.1.log = some 1 ∧
        linkedOf 1031#64 p.1.log = none ∧ linkedOf 2055#64 p.1.log = none ∧
        (p.2 7#64).map RequestContext.pendingCount = some 3)) = true := by
    decide +kernel
  obtain ⟨⟨s, m⟩, hr, hP⟩ :=
    System.Reach.of_exec (· = (ReqTable.fresh, (fun _ => none : ContextMap))) _ fresh_of_b rfl _ _ hrun
  exact ⟨s, m, (req_hash_refines_map hr).1, of_decide_eq_true hP⟩

end OsTransport
