/-
  Which worker a request gets.

  `select_best_worker` looks at the workers one after the other, each under its own mutex, and
  keeps the best it has seen; meanwhile the queues it has looked at change.  Its answer travels:
  into the request's context, from there into every wake-up and every cancel, and each of them
  uses it as an index into `handle->workers`.

  Part I.   `index_in_bounds`: whatever may still be used as an index is one, however old it is.
            The lanes do the work: only an attach names a worker that was not named before
            (`names_step`), and an attach takes the worker its own scan has found.
  Part II.  `selected_least`: the worker chosen is the first of the lightest among the loads the
            scan has seen.  The scan stops early at a worker without load that is not busy; the
            workers it has not looked at could not have changed its choice.

  Both parts are inductions over runs.  In Part I the bound on an index is one invariant over every
  place an index may be kept in (`PoolSys.Indexes`: contexts, calls on their way from the scan on,
  workers with something to do), so a stale one is covered by the same statement as a fresh one.
  In Part II the loads seen are a history variable (`ScanSys`), since the queues have changed when
  the scan ends; `Scanning` is the loop invariant, `Scanning.stop` the case in which it ends early.
-/
import OsTransport.Binding
import OsTransport.Destroy
import Mathlib.Data.List.MinMax
import Mathlib.Data.Prod.Lex

namespace OsTransport

open Transition

variable {κ α : Type*} [DecidableEq κ] {workerCount : Nat}
  {ok : PoolSys κ α → PoolAction κ α → Prop}

/-! ## Part I: the indices

An index is read from the table or kept by a call, and used later.  Whatever names a worker, names
one that a scan has looked at. -/

section Lane

variable {r : ReqId} {L L' : Lane κ α}

/-- An attach names the worker it attaches to, and no other new one. -/
theorem names_attach {c : κ} {w w' : Nat} {nodes : List (TaskNode α)}
    (h : LaneStep r L (.attach c w nodes) L') (hw : L'.Names w') : L.Names w' ∨ w' = w := by
  cases h
  rcases hw with (hb | hb | hb) | hq
  · exact .inl (.inl (.inl hb))
  · rcases exists_update (P := fun x => x.target = some w') hb with h | h
    · right
      simpa [LaneCall.target] using h.symm
    · exact .inl (.inl (.inr (.inl h)))
  · exact .inl (.inl (.inr (.inr hb)))
  · by_cases hne : w' = w
    · exact .inr hne
    · simp only [Function.update_of_ne hne] at hq
      exact .inl (.inr hq)

end Lane

section Indices

variable {s s' : PoolSys κ α}

omit [DecidableEq κ] in
/-- At the start nothing is beyond the workers there are. -/
theorem within_start : (PoolSys.start workerCount : PoolSys κ α).Within :=
  ⟨fun _ _ => rfl, fun _ _ => rfl, fun _ => trivial⟩

/-- In every run nothing is. -/
theorem within_reach (h : (poolSystem κ α workerCount).Reach ok s) : s.Within :=
  h.invariant (I := PoolSys.Within) (by rintro s rfl; exact within_start)
    fun _ _ _ _ hI _ hs => within_step hI hs

/-- In every run every worker that something of an id names is one of the pool's. -/
theorem names_lt (h : (poolSystem κ α workerCount).Reach ok s) :
    ∀ r w, (lane r s).Names w → w < workerCount := by
  refine h.invariant (I := fun s => ∀ r w, (lane r s).Names w → w < workerCount) ?_ ?_
  · rintro s rfl r w hw
    rw [lane_start] at hw
    rcases hw with (⟨_, hctx, -⟩ | ⟨_, hc⟩ | hwake) | hq
    · cases hctx
    · cases hc
    · exact absurd rfl hwake
    · exact absurd rfl hq
  · intro s a s' hr hI _ hs r w hw
    obtain ⟨l, hl, hexp⟩ := lane_step (r := r) (PoolSys.carries_reach hr) hs
    by_cases hatt : ∃ c w₀ nodes, l = .attach c w₀ nodes
    · obtain ⟨c, w₀, nodes, rfl⟩ := hatt
      rcases names_attach hl hw with hold | rfl
      · exact hI r w hold
      · -- the worker the scan of this very submission has found
        obtain ⟨sub, _, -, hcall, -⟩ := hexp
        have hlt := (within_reach hr).calls c
        rw [hcall] at hlt
        rw [← (PoolSys.running_lt hr).1]
        exact hlt
    · exact hI r w (names_step hl (fun c w₀ nodes heq => hatt ⟨c, w₀, nodes, heq⟩) hw)

/-- Somewhere in the pool is a `worker_idx` that may still be looked up. -/
inductive PoolSys.Indexes (s : PoolSys κ α) (w : Nat) : Prop
  /-- The context of a request, from which wake-ups and cancels take it. -/
  | context {r ctx} (h : s.reqHash.find r = some ctx) (hw : ctx.workerIdx = w)
  /-- The best worker a scan has seen. -/
  | best {c sub made i b} (h : s.calls c = .selecting sub made i (some b)) (hw : b.workerIdx = w)
  /-- The worker of a submission, before and after its tasks are queued. -/
  | reserved {c sub made todo} (h : s.calls c = .building sub (some w) made todo)
  | attaching {c sub nodes} (h : s.calls c = .attaching sub w nodes)
  | recording {c sub nodes} (h : s.calls c = .recording sub w nodes)
  /-- What a wake-up or a cancel has looked up; its context may be gone. -/
  | waking {c r u} (h : s.calls c = .waking r u w)
  | cancelling {c r} (h : s.calls c = .cancelling r w)
  /-- A worker with something to do. -/
  | queued (h : (s.workers w).queue ≠ [])
  | pending (h : (s.workers w).pending ≠ [])
  | executing (h : (s.workers w).exec ≠ .loop)

/-- A wake-up looks up the worker of the only task of a request, and the task is served on another
    one. -/
def lookThenServe : List (PoolAction Bool Unit) :=
  [.submit false oneTask .ok] ++ List.replicate 4 (.advance false .ok) ++
    [.collect false, .wake true 7#64 5#64, .wake false 7#64 6#64, .advance false .ok, .pop 0,
      .finish 0 0, .account 0]

/-- No `worker_idx` is ever out of bounds, whatever has become of the request it was looked up
    for. -/
theorem index_in_bounds (h : (poolSystem κ α workerCount).Reach ok s) {w : Nat} (hw : s.Indexes w) :
    w < workerCount := by
  have hwithin := within_reach h
  have hcount := (PoolSys.running_lt h).1
  have hcall := hwithin.calls
  cases hw with
  | @context r ctx hctx hw => exact names_lt h r w (.inl (.inl ⟨ctx, hctx, hw⟩))
  | @best c _ _ _ b hc hw =>
    have hlt := hcall c
    rw [hc] at hlt
    rw [← hw, ← hcount]
    exact hlt b rfl
  | @reserved c _ _ _ hc =>
    have hlt := hcall c
    rw [hc] at hlt
    rw [← hcount]
    exact hlt w rfl
  | @attaching c _ _ hc =>
    have hlt := hcall c
    rw [hc] at hlt
    rw [← hcount]
    exact hlt
  | @recording c sub nodes hc =>
    refine names_lt h sub.requestId w (.inl (.inr (.inl ⟨c, ?_⟩)))
    rw [lane_calls, hc, laneCall, if_pos rfl]
    rfl
  | @waking c r u hc =>
    refine names_lt h r w (.inl (.inr (.inl ⟨c, ?_⟩)))
    rw [lane_calls, laneCall_waking.mpr hc]
    rfl
  | @cancelling c r hc =>
    refine names_lt h r w (.inl (.inr (.inl ⟨c, ?_⟩)))
    rw [lane_calls, laneCall_cancelling.mpr hc]
    rfl
  | queued hq =>
    obtain ⟨t, ht⟩ := List.exists_mem_of_ne_nil _ hq
    exact names_lt h t.requestId w (.inr (laneQueue_ne_nil ht rfl))
  | pending hp =>
    obtain ⟨p, hp⟩ := List.exists_mem_of_ne_nil _ hp
    exact names_lt h p.requestId w (.inl (.inr (.inr (laneWakes_ne_nil hp rfl))))
  | executing hexec =>
    by_contra hle
    exact hexec (hwithin.exec w (by omega))

/-- A wake-up holds the index of its worker after the context it came from is gone. -/
theorem index_in_bounds_stale : ∃ s : PoolSys Bool Unit, (poolSystem Bool Unit 2).Reach
    (fun _ _ => True) s ∧ (s.reqHash.find 7#64).isNone ∧ s.calls true = .waking 7#64 5#64 0 ∧
      0 < 2 := by
  let stale : PoolSys Bool Unit → Bool := fun s =>
    (s.reqHash.find 7#64).isNone && laneCall 7#64 (s.calls true) == .waking 5#64 0
  have hrun : (exec (fun _ _ => true) PoolSys.step (PoolSys.start 2) lookThenServe).any stale = true := by
    decide +kernel
  obtain ⟨s, hr, hP⟩ := poolSystem_exec (fun _ _ => true) (fun _ _ _ => trivial) _ _ hrun
  obtain ⟨hnone, hcall⟩ := Bool.and_eq_true_iff.mp hP
  have hwaking := laneCall_waking.mp (beq_iff_eq.mp hcall)
  exact ⟨s, hr, hnone, hwaking, index_in_bounds hr (.waking hwaking)⟩

end Indices

/-! ## Part II: the choice

The order is by load, and then by whether the worker is busy; the first of the least wins. -/

section Scan

/-- What the scan sees of worker `i`. -/
def sampleWorker (w : WorkerThread α) (i : Nat) : BestWorker :=
  ⟨i, workerLoad w, if w.state = .busy then 1 else 0⟩

/-- By load, and among equals by whether the worker is busy. -/
def BestWorker.rank (b : BestWorker) : Nat ×ₗ Nat := toLex (b.load, b.busyBias)

/-- Worker `w` is the first of the lightest, whatever a full scan would have seen of the workers
    that were not looked at. -/
def Lightest (n w : Nat) (seen : List BestWorker) : Prop :=
  ∃ b, b.workerIdx = w ∧ seen.map BestWorker.workerIdx = List.range seen.length ∧
    seen.length ≤ n ∧
    ∀ rest, seen.length + rest.length = n → (seen ++ rest).argmin BestWorker.rank = some b

/-- A scan about to look at worker `i`.  `seen` are the loads it has sampled, which by now may be
    those of no worker. -/
structure Scanning (n : Nat) (seen : List BestWorker) (i : Nat) (best : Option BestWorker) : Prop where
  indices : seen.map BestWorker.workerIdx = List.range i
  below : i ≤ n
  best : best = seen.argmin BestWorker.rank
  /-- The scan would have stopped at a worker that has nothing to do. -/
  loaded : ∀ b ∈ seen, b.rank ≠ toLex (0, 0)

/-- What comes after a least element does not change the choice. -/
theorem argmin_append_of_le {ι β : Type*} [LinearOrder β] {f : ι → β} {l : List ι} {m : ι}
    (h : l.argmin f = some m) (hm : ∀ x, f m ≤ f x) (rest : List ι) :
    (l ++ rest).argmin f = some m := by
  induction rest using List.reverseRecOn with
  | nil => rwa [List.append_nil]
  | append_singleton rest x ih =>
    rw [← List.append_assoc, List.argmin_concat, ih]
    exact if_neg (hm x).not_gt

/-- Nothing is lighter than no load and not busy. -/
theorem rank_nonneg (b : BestWorker) : toLex (0, 0) ≤ b.rank := by
  rw [BestWorker.rank, Prod.Lex.toLex_le_toLex]
  simp only
  omega

variable {n i : Nat} {seen : List BestWorker} {best : Option BestWorker}

omit [DecidableEq κ] in
/-- One iteration compares ranks. -/
theorem selectBestWorkerStep_eq (w : WorkerThread α) (i : Nat) (best : Option BestWorker) :
    selectBestWorkerStep w i best =
      if (sampleWorker w i).rank = toLex (0, 0) then (sampleWorker w i, true)
      else match best with
        | none => (sampleWorker w i, false)
        | some b => if (sampleWorker w i).rank < b.rank then (sampleWorker w i, false) else (b, false) := by
  unfold selectBestWorkerStep sampleWorker BestWorker.rank
  generalize (if w.state = .busy then 1 else 0) = busyBias
  cases best <;> simp only [toLex_inj, Prod.mk.injEq, Prod.Lex.toLex_lt_toLex]

/-- The scan stops at a worker with nothing to do. -/
theorem selectBestWorkerStep_stops (w : WorkerThread α) (i : Nat) (best : Option BestWorker) :
    (selectBestWorkerStep w i best).2 = true ↔ (sampleWorker w i).rank = toLex (0, 0) := by
  rw [selectBestWorkerStep_eq]
  split
  · simpa
  · rename_i h
    cases best with
    | none => simpa using h
    | some b => by_cases hlt : (sampleWorker w i).rank < b.rank <;> simpa [hlt] using h

/-- One iteration keeps the first of the lightest. -/
theorem selectBestWorkerStep_best (w : WorkerThread α)
    (hloaded : ∀ b ∈ seen, b.rank ≠ toLex (0, 0)) :
    (seen ++ [sampleWorker w i]).argmin BestWorker.rank =
      some (selectBestWorkerStep w i (seen.argmin BestWorker.rank)).1 := by
  rw [List.argmin_concat, selectBestWorkerStep_eq]
  cases hbest : seen.argmin BestWorker.rank with
  | none => split <;> rfl
  | some b =>
    have hb := hloaded b (List.argmin_mem hbest)
    by_cases hzero : (sampleWorker w i).rank = toLex (0, 0)
    · -- the scan stops here, and had not stopped at `b`
      rw [if_pos hzero]
      exact if_pos (hzero ▸ lt_of_le_of_ne (rank_nonneg b) hb.symm)
    · rw [if_neg hzero]
      show (if (sampleWorker w i).rank < b.rank then some (sampleWorker w i) else some b) = _
      simp only
      split <;> rfl

/-- The scan has seen the workers up to here, in their order. -/
theorem Scanning.indices_step (h : Scanning n seen i best) (w : WorkerThread α) :
    (seen ++ [sampleWorker w i]).map BestWorker.workerIdx = List.range (i + 1) := by
  rw [List.map_append, h.indices, List.range_succ]
  rfl

/-- The scan goes on. -/
theorem Scanning.step (h : Scanning n seen i best) (hi : i < n) (w : WorkerThread α)
    (hgo : (selectBestWorkerStep w i best).2 ≠ true) :
    Scanning n (seen ++ [sampleWorker w i]) (i + 1) (some (selectBestWorkerStep w i best).1) where
  indices := h.indices_step w
  below := hi
  best := by rw [selectBestWorkerStep_best w h.loaded, h.best]
  loaded b hb := by
    rcases List.mem_append.mp hb with hb | hb
    · exact h.loaded b hb
    · rw [List.mem_singleton.mp hb]
      exact fun hzero => hgo ((selectBestWorkerStep_stops w i best).mpr hzero)

/-- The scan stops early. -/
theorem Scanning.stop (h : Scanning n seen i best) (hi : i < n) (w : WorkerThread α)
    (hstop : (selectBestWorkerStep w i best).2 = true) :
    Lightest n i (seen ++ [sampleWorker w i]) := by
  have hzero := (selectBestWorkerStep_stops w i best).mp hstop
  have hlen : seen.length = i := by simpa using congrArg List.length h.indices
  have hmin : (seen ++ [sampleWorker w i]).argmin BestWorker.rank = some (sampleWorker w i) := by
    rw [selectBestWorkerStep_best w h.loaded, selectBestWorkerStep_eq, if_pos hzero]
  refine ⟨sampleWorker w i, rfl, ?_, ?_, fun rest _ => argmin_append_of_le hmin ?_ rest⟩
  · rw [h.indices_step, List.length_append, hlen]
    rfl
  · rw [List.length_append, hlen]
    exact hi
  · intro b
    rw [hzero]
    exact rank_nonneg b

/-- The scan has looked at all workers. -/
theorem Scanning.finish (h : Scanning n seen i best) (hi : ¬ i < n) {b : BestWorker}
    (hb : best = some b) : Lightest n b.workerIdx seen := by
  have hlen : seen.length = i := by simpa using congrArg List.length h.indices
  have hbelow := h.below
  refine ⟨b, rfl, by rw [hlen]; exact h.indices, by omega, fun rest hrest => ?_⟩
  obtain rfl : rest = [] := List.eq_nil_of_length_eq_zero (by omega)
  rw [List.append_nil, ← h.best, hb]

end Scan

/-! ### Over runs

The scan's samples are written down beside the pool, since the pool itself forgets them. -/

/-- A pool, and what the current or last scan of each process has seen. -/
structure ScanSys (κ α : Type*) where
  pool : PoolSys κ α
  seen : κ → List BestWorker

namespace ScanSys

variable {s s' : ScanSys κ α}

/-- What the scan has seen before it looks at worker `i`; at worker 0 it begins. -/
def before (seen : List BestWorker) (i : Nat) : List BestWorker := if i = 0 then [] else seen

/-- What the scans have seen after a step of the pool. -/
def look (s : ScanSys κ α) : PoolAction κ α → κ → List BestWorker
  | .advance c _ =>
    match s.pool.calls c with
    | .selecting _ _ i _ =>
      if i < s.pool.workerCount then
        Function.update s.seen c (before (s.seen c) i ++ [sampleWorker (s.pool.workers i) i])
      else s.seen
    | _ => s.seen
  | _ => s.seen

def step (s : ScanSys κ α) (a : PoolAction κ α) : Option (ScanSys κ α) :=
  (s.pool.step a).map fun pool => ⟨pool, s.look a⟩

end ScanSys

/-- All runs of a pool, with what the scans see. -/
def scanSystem (κ α : Type*) [DecidableEq κ] (workerCount : Nat) :
    System (ScanSys κ α) (PoolAction κ α) :=
  .ofFun (· = ⟨PoolSys.start workerCount, fun _ => []⟩) ScanSys.step

/-- Where a call is, its scan has found what it holds. -/
def Call.Scanned (n : Nat) (seen : List BestWorker) : Call α → Prop
  | .selecting _ _ i best => Scanning n (ScanSys.before seen i) i best
  | .building _ worker _ _ => ∀ w, worker = some w → Lightest n w seen
  | .attaching _ w _ => Lightest n w seen
  | .recording _ w _ => Lightest n w seen
  | _ => True

section Scanned

variable {n : Nat} {seen : List BestWorker}

theorem scanning_zero (n : Nat) (seen : List BestWorker) :
    Scanning n (ScanSys.before seen 0) 0 none :=
  ⟨rfl, Nat.zero_le n, rfl, fun _ hb => by cases hb⟩

/-- The worker selected stays the lightest of the scan. -/
theorem scanned_selectedWorker (sub : Submission α) (made : List (TaskNode α)) {w : Nat}
    (h : Lightest n w seen) : (selectedWorker sub made w).Scanned n seen := by
  unfold selectedWorker
  split
  · exact h
  · rintro _ ⟨rfl⟩
    exact h

/-- It does while the nodes are built. -/
theorem scanned_builtNode (sub : Submission α) {worker : Option Nat} (made : List (TaskNode α))
    (todo : List (ThreadPoolTask α)) (h : ∀ w, worker = some w → Lightest n w seen) :
    (builtNode sub worker made todo).Scanned n seen := by
  cases todo with
  | nil =>
    cases worker with
    | none => exact scanning_zero n seen
    | some w => exact h w rfl
  | cons src todo => exact h

/-- A submission that begins has chosen nothing. -/
theorem scanned_beginSubmission (b : Bool) (sub : Submission α) (alloc : Alloc) :
    (beginSubmission b sub alloc).Scanned n seen := by
  unfold beginSubmission
  split
  · trivial
  · split
    · exact fun w hw => by cases hw
    · exact scanning_zero n seen

end Scanned

section Runs

variable {s s' : ScanSys κ α} {c : κ} {a : PoolAction κ α}

theorem ScanSys.look_of_ne (hne : a.proc ≠ some c) : s.look a c = s.seen c := by
  cases a with
  | advance c' =>
    have hcc : c ≠ c' := fun h => hne (congrArg some h.symm)
    simp only [look]
    cases s.pool.calls c' with
    | selecting sub made i best =>
      simp only
      split
      · exact Function.update_of_ne hcc ..
      · rfl
    | _ => rfl
  | _ => rfl

/-- One section of the call of process `c`, and what its scan has seen then. -/
theorem scanned_advance {alloc : Alloc} {pool : PoolSys κ α}
    (h : (s.pool.calls c).Scanned s.pool.workerCount (s.seen c))
    (hs : s.pool.advance c alloc = some pool) :
    (pool.calls c).Scanned s.pool.workerCount (s.look (.advance c alloc) c) := by
  unfold PoolSys.advance at hs
  simp only [ScanSys.look]
  split at hs
  · cases hs
  · cases hs
  · rename_i sub made i best hc
    rw [hc] at h ⊢
    simp only at hs ⊢
    split at hs
    · rename_i hi
      rw [if_pos hi, Function.update_self]
      split at hs <;> cases hs
      · rename_i hstop
        rw [PoolSys.calls_setCall_self]
        exact scanned_selectedWorker sub made (h.stop hi _ hstop)
      · rename_i hgo
        rw [PoolSys.calls_setCall_self]
        exact h.step hi _ hgo
    · rename_i hi
      rw [if_neg hi]
      split at hs <;> cases hs
      · rw [PoolSys.calls_setCall_self]
        trivial
      · rename_i b
        rw [PoolSys.calls_setCall_self]
        refine scanned_selectedWorker sub made ?_
        have hscan : Scanning s.pool.workerCount (ScanSys.before (s.seen c) i) i (some b) := h
        have hfound := hscan.finish hi rfl
        -- a scan that has found something has begun
        by_cases hzero : i = 0
        · have hbest := hscan.best
          rw [ScanSys.before, if_pos hzero] at hbest
          cases hbest
        · rwa [ScanSys.before, if_neg hzero] at hfound
  · rename_i sub worker made todo hc
    rw [hc] at h ⊢
    split at hs
    · cases hs
    · cases hs
      rw [PoolSys.calls_setCall_self]
      trivial
    · split at hs <;> cases hs <;> rw [PoolSys.calls_setCall_self]
      · trivial
      · exact scanned_builtNode sub _ _ h
  · rename_i sub w nodes hc
    rw [hc] at h ⊢
    split at hs <;> cases hs <;> rw [PoolSys.calls_setCall_self]
    · trivial
    · exact h
  · cases hs
    rw [PoolSys.calls_setCall_self]
    trivial
  · split at hs <;> cases hs <;> rw [PoolSys.calls_setCall_self] <;> trivial
  · cases hs
    rw [PoolSys.calls_setCall_self]
    split <;> trivial
  · cases hs
    rw [PoolSys.calls_setCall_self]
    trivial

/-- One step keeps the worker chosen the lightest seen. -/
theorem scanned_step (h : ∀ c, (s.pool.calls c).Scanned s.pool.workerCount (s.seen c))
    (hs : s.step a = some s') :
    ∀ c, (s'.pool.calls c).Scanned s'.pool.workerCount (s'.seen c) := by
  obtain ⟨pool, hpool, rfl⟩ := Option.map_eq_some_iff.mp hs
  intro c
  show (pool.calls c).Scanned pool.workerCount (s.look a c)
  rw [PoolSys.step_workerCount hpool]
  by_cases hproc : a.proc = some c
  · cases a with
    | submit c' sub alloc =>
      obtain rfl : c' = c := Option.some.inj hproc
      rw [(PoolSys.submit_calls hpool).2]
      exact scanned_beginSubmission ..
    | wake c' r u =>
      obtain rfl : c' = c := Option.some.inj hproc
      obtain ⟨-, hcall | ⟨w, hcall⟩⟩ := PoolSys.wake_calls hpool <;> rw [hcall] <;> trivial
    | cancel c' r =>
      obtain rfl : c' = c := Option.some.inj hproc
      obtain ⟨-, hcall | hcall | ⟨w, hcall⟩⟩ := PoolSys.cancel_calls hpool <;> rw [hcall] <;> trivial
    | advance c' alloc =>
      obtain rfl : c' = c := Option.some.inj hproc
      exact scanned_advance (h c') hpool
    | collect c' =>
      obtain rfl : c' = c := Option.some.inj hproc
      rw [(PoolSys.collect_calls hpool).2]
      trivial
    | pop | finish | account => cases hproc
  · rw [PoolSys.step_calls_of_ne hpool hproc, ScanSys.look_of_ne hproc]
    exact h c

/-- Recording what the scans see hides no run of the pool. -/
theorem scanSystem_covers {s : PoolSys κ α} (h : (poolSystem κ α workerCount).Reach ok s) :
    ∃ seen, (scanSystem κ α workerCount).Reach (fun s a => ok s.pool a) ⟨s, seen⟩ := by
  induction h with
  | init h0 =>
    obtain rfl := h0
    exact ⟨_, .init rfl⟩
  | @step s s' a _ ha hs ih =>
    obtain ⟨seen, hr⟩ := ih
    exact ⟨_, .step hr ha (Option.map_eq_some_iff.mpr ⟨s', hs, rfl⟩)⟩

/-- A submission goes to the first of the lightest workers, by the loads its scan has seen one after
    the other, even if the scan has stopped early. -/
theorem selected_least {ok : ScanSys κ α → PoolAction κ α → Prop}
    (h : (scanSystem κ α workerCount).Reach ok s) {sub : Submission α} {w : Nat}
    {nodes : List (TaskNode α)} (hc : s.pool.calls c = .attaching sub w nodes) :
    Lightest workerCount w (s.seen c) := by
  have hreach : s.pool.workerCount = workerCount ∧
      ∀ c, (s.pool.calls c).Scanned s.pool.workerCount (s.seen c) := by
    refine h.invariant (I := fun s => s.pool.workerCount = workerCount ∧
      ∀ c, (s.pool.calls c).Scanned s.pool.workerCount (s.seen c)) ?_ ?_
    · rintro s rfl
      exact ⟨rfl, fun _ => trivial⟩
    · rintro s a s' - ⟨hcount, hI⟩ - hs
      refine ⟨?_, scanned_step hI hs⟩
      obtain ⟨pool, hpool, rfl⟩ := Option.map_eq_some_iff.mp hs
      exact (PoolSys.step_workerCount hpool).trans hcount
  have hscanned := hreach.2 c
  rw [hc, hreach.1] at hscanned
  exact hscanned

/-- The second task finds worker 0 loaded and goes to worker 1. -/
theorem selected_least_second : ∃ s : ScanSys Unit Unit,
    (scanSystem Unit Unit 2).Reach (fun _ _ => True) s ∧
      s.seen () = [⟨0, 1, 0⟩, ⟨1, 0, 0⟩] ∧ Lightest 2 1 (s.seen ()) := by
  let chosen : ScanSys Unit Unit → Bool := fun s =>
    s.seen () == [⟨0, 1, 0⟩, ⟨1, 0, 0⟩] &&
      match s.pool.calls () with
      | .attaching _ w _ => w == 1
      | _ => false
  have hrun : (exec (fun _ _ => true) ScanSys.step ⟨PoolSys.start 2, fun _ => []⟩
      (runSubmission () oneTask 4 ++
        .submit () oneTask .ok :: List.replicate 3 (.advance () .ok))).any chosen = true := by
    decide
  obtain ⟨s, hexec, hP⟩ := exec_any hrun
  have hr : (scanSystem Unit Unit 2).Reach (fun _ _ => True) s :=
    exec_reach (fun _ _ _ => trivial) _ _ _ (.init rfl) hexec
  obtain ⟨hseen, hcall⟩ := Bool.and_eq_true_iff.mp hP
  refine ⟨s, hr, beq_iff_eq.mp hseen, ?_⟩
  cases hc : s.pool.calls () with
  | attaching sub w nodes =>
    rw [hc] at hcall
    obtain rfl : w = 1 := beq_iff_eq.mp hcall
    exact selected_least hr hc
  | _ =>
    rw [hc] at hcall
    cases hcall

end Runs

end OsTransport
