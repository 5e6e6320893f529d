/-
  The status of a completion.

  `os_transport_wake_up_task` does not look at the status of the completion it is given, so the
  worker announces a chunk whose write has failed.  `failed_write_unannounced` says when it does
  not: when the wake-up made from the failed completion is lost before a worker takes a task on it.

  What carries the proof is that a send has one thing under way at a time (`Line`): while a
  completion is due, nobody is about to post for the send, and the notify of the chunk has not been
  posted.  With no task taken from then on, it stays so (`Halted`).

  1. `Move.hands` and `writeFailed_step`: a write fails in the step in which its completion is handed
     over, and nothing is posted in that step;
  2. `Line.halted`: at that moment the send is in flight, so by `Line` no worker is about to post
     for it and the notify of that chunk is not in the history;
  3. `poised_step` and `notified_step`: a worker comes to post only by taking a task, which the
     condition excludes, so both facts stay;
  4. `halted_reach` puts them into an induction over the run, and a wait that returns `0` would need
     the notify (`reported_success`), so there is none.

  The tag of a completion tells its chunk (`chunk_of_tag`), which is how a failed completion is known
  to be that of the chunk in question.  `failed_write_announced` is the run in which the wake-up is
  served.
-/
import OsTransport.SendPipeline

namespace OsTransport

open Transition

/-- `URMA_CR_SUCCESS`. -/
def urmaCrSuccess : Int := 0

/-- The write of chunk `k` was posted, and a completion of it was handed over that has failed.  The
    library is given the status and does not look at it. -/
def Transport.WriteFailed (s : Transport) (q k : Nat) : Prop :=
  ∃ queue wr cr, cr.sR = false ∧ cr.userCtx = wr.userCtx ∧ cr.status ≠ urmaCrSuccess ∧
    [.post q .write k queue wr urmaSuccess, .completion cr].Sublist s.trace

/-- In its next step worker `w` takes the task `t`. -/
def Transport.Takes (s : Transport) (w : Nat) (t : TaskNode ArgPtr) : Prop :=
  (s.pool.workers w).exec = .loop ∧ ∃ p pending queue, (s.pool.workers w).pending = p :: pending ∧
    workerQueuePopByReqAndUserData (s.pool.workers w).queue p.requestId p.userData = some (t, queue)

/-- No worker takes a task of the request once one of its writes has failed.  It is a condition on
    the state before the step: which task is first in the queue the worker looks at. -/
def Heeds (q : Nat) (s : Transport) (a : Action) : Prop :=
  ∀ w ret t, a = .worker w ret → s.Takes w t → t.ptr.sync = q → ∀ k, ¬ s.WriteFailed q k

section Failed

variable {workerCount : Nat} {capacity : BitVec 32} {ok : Transport → Action → Prop}
  {s s' : Transport} {q : Nat} {r : ReqId} {a : Action}

/-! ## One step

Who could announce the chunk after its write has failed, and that nobody else can. -/

/-- A worker that executes a task did so before, or has just taken it. -/
theorem running_step (hm : Move s a s') {w : Nat} {t : TaskNode ArgPtr} {u : BitVec 64}
    (hexec : (s'.pool.workers w).exec = .running t r u) :
    (s.pool.workers w).exec = .running t r u ∨ ∃ ret, a = .worker w ret ∧ s.Takes w t := by
  rcases hm.pool with hpool | ⟨pa, hpa, hpool⟩
  · exact .inl (hpool ▸ hexec)
  rcases PoolSys.exec_effect hpool hexec with hold | ⟨rfl, -⟩
  · exact .inl hold
  obtain ⟨ret, rfl⟩ := hpa
  obtain ⟨hloop, -, hcases⟩ := OsTransport.pop_cases hpool
  have hidle : (s'.pool.workers w).exec ≠ (s.pool.workers w).exec := by
    rw [hexec, hloop]
    simp
  rcases hcases with ⟨-, hs'⟩ | ⟨p, pending, task, queue, hpending, hpop, hs'⟩ | ⟨p, pending, -, -, hs'⟩
  · refine absurd ?_ hidle
    rw [hs']
    show (Function.update s.pool.workers w _ w).exec = _
    rw [Function.update_self]
  · rw [hs'] at hexec
    change (Function.update s.pool.workers w _ w).exec = _ at hexec
    rw [Function.update_self] at hexec
    cases hexec
    exact .inr ⟨ret, rfl, hloop, p, pending, queue, hpending, hpop⟩
  · refine absurd ?_ hidle
    rw [hs']
    show (Function.update s.pool.workers w _ w).exec = _
    rw [Function.update_self]

/-- A worker about to post for the request was so before, or has just taken a task. -/
theorem poised_step (hm : Move s a s') {w i : Nat} {c : Body} (h : s'.Poised r w i c) :
    (∃ c', s.Poised r w i c') ∨ ∃ ret t u, a = .worker w ret ∧ s.Takes w t ∧
      (s'.pool.workers w).exec = .running t r u := by
  obtain ⟨hc, hbody, t, u, hexec, hi⟩ := h
  rcases running_step hm hexec with hold | ⟨ret, ha, htakes⟩
  · left
    have hpoised : s.body w = .start ∨ s.body w = .write := by
      by_cases hworker : ∃ ret, a = .worker w ret
      · obtain ⟨ret, rfl⟩ := hworker
        by_contra hnot
        exact hm.past hold hnot (hbody ▸ hc)
      · by_cases hother : ∀ w ret, a ≠ .worker w ret
        · rw [← (hm.other hother).2.1, hbody]
          exact hc
        · simp only [not_forall, not_not] at hother
          obtain ⟨w', ret, rfl⟩ := hother
          have hw : w ≠ w' := by
            rintro rfl
            exact hworker ⟨ret, rfl⟩
          rw [← (hm.elsewhere hw).2, hbody]
          exact hc
    exact ⟨s.body w, hpoised, rfl, t, u, hold, hi⟩
  · exact .inr ⟨ret, t, u, ha, htakes, hexec⟩

/-- Only handing over a completion enters one into the history, and nothing is posted then. -/
theorem Move.hands (hm : Move s a s') : ∃ events, s'.trace = s.trace ++ events ∧
    ∀ cr, .completion cr ∈ events →
      (∃ x status, a = .completion x cr status) ∧ ∀ e ∈ events, ∀ q, e.posts q = false := by
  obtain ⟨events, htrace, hadds⟩ := hm.adds
  refine ⟨events, htrace, fun cr hcr => ?_⟩
  cases hadds with
  | nothing => cases hcr
  | caused hcause =>
    obtain rfl := List.mem_singleton.mp hcr
    cases hcause
  | marked => cases List.mem_singleton.mp hcr
  | prefilled h =>
    obtain ⟨call, jetty, status, heq⟩ := h _ hcr
    cases heq
  | handled ha h =>
    obtain ⟨reposts, rfl, hre⟩ := h
    rcases List.mem_cons.mp hcr with heq | hcr
    · cases heq
      refine ⟨⟨_, _, ha⟩, fun e he q => ?_⟩
      rcases List.mem_cons.mp he with rfl | he
      · rfl
      · obtain ⟨jetty, status, rfl⟩ := hre e he
        rfl
    · obtain ⟨jetty, status, heq⟩ := hre _ hcr
      cases heq

/-- A write fails when its completion is handed over. -/
theorem writeFailed_step (hm : Move s a s') {k : Nat} (h : s'.WriteFailed q k) :
    s.WriteFailed q k ∨ ∃ queue wr x cr status, a = .completion x cr status ∧ cr.sR = false ∧
      cr.userCtx = wr.userCtx ∧ .post q .write k queue wr urmaSuccess ∈ s.trace := by
  obtain ⟨queue, wr, cr, hside, htag, hst, hsub⟩ := h
  obtain ⟨events, htrace, hhands⟩ := hm.hands
  rw [htrace] at hsub
  by_cases hcr : .completion cr ∈ events
  · obtain ⟨⟨x, status, ha⟩, hquiet⟩ := hhands cr hcr
    refine .inr ⟨queue, wr, x, cr, status, ha, hside, htag, ?_⟩
    rcases List.mem_append.mp (hsub.subset List.mem_cons_self) with hpost | hpost
    · exact hpost
    · have hno := hquiet _ hpost q
      simp [Event.posts] at hno
  · obtain ⟨l₁, l₂, heq, h₁, h₂⟩ := List.sublist_append_iff.mp hsub
    rcases List.eq_nil_or_concat l₂ with rfl | ⟨l, e, rfl⟩
    · rw [List.append_nil] at heq
      exact .inl ⟨queue, wr, cr, hside, htag, hst, heq ▸ h₁⟩
    · refine absurd (h₂.subset ?_) hcr
      rw [List.concat_eq_append] at heq ⊢
      have hlast := congrArg List.getLast? heq
      rw [← List.append_assoc, List.getLast?_concat] at hlast
      simp only [List.getLast?_cons_cons, List.getLast?_singleton, Option.some.injEq] at hlast
      rw [hlast]
      exact List.mem_append_right _ (List.mem_singleton_self _)

/-! ## After a failure

Nothing is announced as long as no task is taken on the wake-up of the failed completion. -/

/-- Nobody is about to post for the request, and no chunk whose write failed was announced.  Only
    taking a task ends this, and that is excluded. -/
structure Transport.Halted (s : Transport) (q : Nat) (r : ReqId) : Prop where
  idle : ∀ w i c, ¬ s.Poised r w i c
  unannounced : ∀ k, s.WriteFailed q k → ∀ queue wr st, .post q .sendImm k queue wr st ∉ s.trace

/-- Without anybody about to post no chunk is announced. -/
theorem notified_step (hr : (transportSystem workerCount capacity).Reach ok s) (hid : s.OwnsId q r)
    (hm : Move s a s') (hidle : ∀ w i c, ¬ s.Poised r w i c) {k : Nat} {queue : SendQueue}
    {wr : UrmaJfsWr} {st : UrmaStatus} (hpost : .post q .sendImm k queue wr st ∈ s'.trace) :
    .post q .sendImm k queue wr st ∈ s.trace := by
  rcases hm.causes hpost rfl with hold | hcause
  · exact hold
  · generalize he : Event.post q .sendImm k queue wr st = e at hcause
    cases hcause with
    | @notify w ret t r' u _ _ _ _ hexec hbody =>
      cases he
      obtain rfl := (sync_of_running hr hid hexec).mp rfl
      exact absurd ⟨.inl rfl, hbody, t, u, hexec, rfl⟩ (hidle w t.ptr.index .start)
    | _ => cases he

/-- The tag of a write tells which chunk it is. -/
theorem chunk_of_tag (hr : (transportSystem workerCount capacity).Reach ok s) {i k : Nat}
    {queue queue' : SendQueue} {wr wr' : UrmaJfsWr} {st st' : UrmaStatus}
    (hpost : .post q .write k queue wr st ∈ s.trace) (hpost' : .post q .write i queue' wr' st' ∈ s.trace)
    (htag : wr.userCtx = wr'.userCtx) : k = i := by
  obtain ⟨hmade, writeInfo, hinfo, hwr⟩ := posted_reach hr q _ _ _ _ _ hpost
  obtain ⟨-, writeInfo', hinfo', hwr'⟩ := posted_reach hr q _ _ _ _ _ hpost'
  rw [hinfo] at hinfo'
  cases hinfo'
  have hreq := sendReq_of_made hr hmade hinfo
  have hchunk := chunkId_of_sendWr hreq.zero hwr
  have hchunk' := chunkId_of_sendWr hreq.zero hwr'
  rw [htag, hchunk', if_pos rfl, if_pos rfl] at hchunk
  have hk := (sendQueue_of_sendWr hwr).2 rfl
  have hi := (sendQueue_of_sendWr hwr').2 rfl
  have hle : (s.reqs q).prep.chunks.length ≤ 7 := hreq.wellFormed.chunks_le
  have hnat := congrArg BitVec.toNat hchunk
  rw [BitVec.toNat_ofNat, BitVec.toNat_ofNat, Nat.mod_eq_of_lt (by omega), Nat.mod_eq_of_lt (by omega)] at hnat
  exact hnat.symm

/-- While the completion of a write is due, nobody is about to post, and its chunk is not
    announced. -/
theorem Line.halted {exact : Prop} {w₀ : Nat} {nodes : List (TaskNode ArgPtr)} {b : Baton}
    (h : Line exact q r s w₀ nodes b) (hr : (transportSystem workerCount capacity).Reach ok s)
    (hid : s.OwnsId q r) {k : Nat} {queue : SendQueue} {wr : UrmaJfsWr}
    (hpost : .post q .write k queue wr urmaSuccess ∈ s.trace) (hdue : wr.userCtx ∈ s.outstanding) :
    (∀ w i c, ¬ s.Poised r w i c) ∧ ∀ queue wr st, .post q .sendImm k queue wr st ∉ s.trace := by
  have hown : wr.userCtx ∈ b.own := by
    rw [← h.wire.own]
    exact List.mem_filter.mpr ⟨hdue, (ownTag_of_posted hr hid hpost).mpr ⟨rfl, rfl⟩⟩
  cases b with
  | flight i x =>
    obtain rfl := List.mem_singleton.mp hown
    obtain ⟨queue', wr', hpost', htag⟩ := h.wire.flight i _ rfl
    obtain rfl := chunk_of_tag hr hpost hpost' htag.symm
    refine ⟨fun w j c hp => (by cases h.poised w j c hp), fun queue wr st hno => ?_⟩
    have hplace : ((.sendImm, k) : UrmaOpcode × Nat) ∈ (sendPosts q s.trace).filterMap Event.place :=
      List.mem_filterMap.mpr ⟨_, mem_sendPosts hno (beq_self_eq_true q), rfl⟩
    rw [(h.wire.sent (by simp)).1] at hplace
    rcases List.mem_append.mp hplace with hmem | hmem
    · obtain ⟨j, hj, hmem⟩ := List.mem_flatMap.mp hmem
      simp only [List.mem_cons, Prod.mk.injEq, reduceCtorEq, false_and, List.not_mem_nil, or_false,
        true_and, false_or] at hmem
      subst hmem
      exact absurd (List.mem_range.mp hj) (Nat.lt_irrefl _)
    · cases List.mem_singleton.mp hmem
  | _ => cases hown

theorem halted_reach (hguard : ∀ s a, ok s a → SendGuard r s a ∧ Heeds q s a)
    (h : (transportSystem workerCount capacity).Reach ok s) (hid : s.OwnsId q r) {k : Nat}
    (hfail : s.WriteFailed q k) : s.Halted q r := by
  have hinv : ∀ s, (transportSystem workerCount capacity).Reach ok s → s.OwnsId q r →
      ∀ k, s.WriteFailed q k → s.Halted q r := by
    intro s h
    refine h.invariant (I := fun s => s.OwnsId q r → ∀ k, s.WriteFailed q k → s.Halted q r) ?_ ?_
    · rintro s rfl - k ⟨_, _, _, -, -, -, hsub⟩
      cases hsub
    intro s a s' hr hI hok hs hid' k hfail
    have hid := OwnsId.back hr hs hid'
    have hm := Transport.move_of_step hs
    obtain ⟨hsend, hheeds⟩ := hguard s a hok
    -- a write of the chunk `j` fails in this step
    have hfresh : ∀ {j queue wr x cr status}, a = .completion x cr status → cr.sR = false →
        cr.userCtx = wr.userCtx → .post q .write j queue wr urmaSuccess ∈ s.trace →
        (∀ w i c, ¬ s.Poised r w i c) ∧ ∀ queue wr st, .post q .sendImm j queue wr st ∉ s.trace := by
      rintro j queue wr x cr status rfl hside htag hpost
      obtain ⟨-, writeInfo, hinfo, -⟩ := posted_reach hr q _ _ _ _ _ hpost
      rcases line_reach False (fun s a hok => (hguard s a hok).1) (fun hx => hx.elim) hr hid hinfo with
        hnil | ⟨-, w₀, nodes, b, hline⟩
      · have hno := unposted_reach hr hnil _ hpost
        simp [Event.posts] at hno
      · exact hline.halted hr hid hpost (htag ▸ hsend.2 hside)
    have hidle : ∀ w i c, ¬ s.Poised r w i c := by
      rcases writeFailed_step hm hfail with hold | ⟨queue, wr, x, cr, status, ha, hside, htag, hpost⟩
      · exact (hI hid k hold).idle
      · exact (hfresh ha hside htag hpost).1
    refine ⟨?_, ?_⟩
    · intro w i c hp
      rcases poised_step hm hp with ⟨c', hold⟩ | ⟨ret, t, u, rfl, htakes, hexec⟩
      · exact hidle w i c' hold
      · have hsync := (sync_of_running (hr.step hok hs) hid' hexec).mpr rfl
        rcases writeFailed_step hm hfail with hold | ⟨-, -, x, cr, status, ha, -⟩
        · exact hheeds w ret t rfl htakes hsync k hold
        · cases ha
    · intro j hj queue wr st hnotified
      have hnotified' := notified_step hr hid hm hidle hnotified
      rcases writeFailed_step hm hj with hold | ⟨queue', wr', x, cr, status, ha, hside, htag, hpost⟩
      · exact (hI hid j hold).unannounced j hold _ _ _ hnotified'
      · exact (hfresh ha hside htag hpost).2 _ _ _ hnotified'
  exact hinv s h hid k hfail

end Failed

/-- **A failed write is not announced** while its wake-up is not served: in every run in which no
    worker takes a task of the send once one of its writes has failed, the chunk of a failed
    write is not announced and no wait for the send returns `0`. -/
theorem failed_write_unannounced {workerCount : Nat} {capacity : BitVec 32} {s : Transport} {q : Nat}
    {r : ReqId}
    (h : (transportSystem workerCount capacity).Reach (fun s a => SendGuard r s a ∧ Heeds q s a) s)
    (hid : s.OwnsId q r) {k : Nat} (hfail : s.WriteFailed q k) :
    (∀ queue wr st, .post q .sendImm k queue wr st ∉ s.trace) ∧
      ∀ st, (s.reqs q).owner ≠ .returned (.waited .ok st) := by
  have hnone := (halted_reach (fun _ _ hok => hok) h hid hfail).unannounced k hfail
  refine ⟨hnone, fun st howner => ?_⟩
  obtain ⟨queue, wr, cr, -, -, -, hsub⟩ := hfail
  obtain ⟨hmade, writeInfo, hinfo, hwr⟩ := posted_reach h q _ _ _ _ _ (hsub.subset List.mem_cons_self)
  have hreq := sendReq_of_made h hmade hinfo
  have hk : k < (s.reqs q).prep.tasks.length := by
    rw [hreq.wellFormed.tasks_length]
    exact (sendQueue_of_sendWr hwr).2 rfl
  have hmark : ((⟨q, k⟩ : ArgPtr), true) ∈ marks s.trace := by
    refine (List.mem_filter (p := fun x => x.1 == (⟨q, k⟩ : ArgPtr)).mp ?_).1
    rw [marked_of_ok h howner hk]
    exact List.mem_singleton_self _
  obtain ⟨arg, harg, hdone⟩ := accomplished_of_mark h hmark
  obtain rfl := hreq.args k arg harg
  have hposted : ∃ queue wr, .post q .sendImm k queue wr urmaSuccess ∈ taskEvents ⟨q, k⟩ s.trace := by
    rcases hdone with ⟨queue, wr, -, -, heq⟩ | ⟨queue, wr, _, _, -, -, heq⟩
    · exact ⟨queue, wr, heq ▸ List.mem_cons_self⟩
    · exact ⟨queue, wr, heq ▸ List.mem_cons_self⟩
  obtain ⟨queue, wr, hmem⟩ := hposted
  exact hnone queue wr _ (List.mem_filter.mp hmem).1

/-- The first write of `twoChunks` completes with an error. -/
def failedWriteCr : UrmaCr := { firstWriteCr with status := 9 }

/-- The only request is 0, completions come from posted work requests, and no worker takes a task. -/
def heedsb (s : Transport) (a : Action) : Bool :=
  sendGuardb s a && match a with
    | .worker w _ => (s.pool.workers w).pending.all fun p =>
        (workerQueuePopByReqAndUserData (s.pool.workers w).queue p.requestId p.userData).isNone
    | _ => true

theorem heeds_of_b (s : Transport) (a : Action) (h : heedsb s a = true) :
    SingleRequest 0 s a ∧ SendGuard 7#64 s a ∧ Heeds 0 s a := by
  obtain ⟨hguard, hnone⟩ := Bool.and_eq_true_iff.mp h
  obtain ⟨hsingle, hsend⟩ := sendGuard_of_b s a hguard
  refine ⟨hsingle, hsend, ?_⟩
  rintro w ret t rfl ⟨-, p, pending, queue, hpending, hpop⟩
  have hno := List.all_eq_true.mp hnone p (hpending ▸ List.mem_cons_self)
  rw [hpop] at hno
  cases hno

/-- A failed completion of the first write follows the post of it in the history. -/
def firstFailed (s : Transport) : Bool :=
  match s.trace with
  | .post q .write k _ wr st :: rest =>
    q == 0 && k == 0 && st == urmaSuccess && wr.userCtx == failedWriteCr.userCtx &&
      rest.contains (.completion failedWriteCr)
  | _ => false

theorem writeFailed_of_first {s : Transport} (h : firstFailed s = true) : s.WriteFailed 0 0 := by
  unfold firstFailed at h
  split at h
  · rename_i q k queue wr st rest htrace
    simp only [Bool.and_eq_true, beq_iff_eq, List.contains_iff_mem] at h
    obtain ⟨⟨⟨⟨rfl, rfl⟩, rfl⟩, htag⟩, hmem⟩ := h
    refine ⟨queue, wr, failedWriteCr, rfl, htag.symm, by decide, ?_⟩
    rw [htrace]
    exact (List.singleton_sublist.mpr hmem).cons_cons _
  · cases h

/-- The wait times out before the wake-up is accepted, and the cancel leaves nothing to take. -/
theorem failed_write_unannounced_cancelled : ∃ s, (transportSystem 1 1#32).Reach (SendGuard 7#64) s ∧
    s.WriteFailed 0 0 ∧ ∀ queue wr st, .post 0 .sendImm 0 queue wr st ∉ s.trace := by
  obtain ⟨s, hr, hP⟩ := transportSystem_exec 1 1#32 heedsb heeds_of_b
    (sendTwo ++ [.completion 0 failedWriteCr urmaSuccess, .callWait 0 true, .owner 0 .woken,
      .owner 0 .etimedout] ++ List.replicate 7 (.owner 0 .woken) ++
      [.wake 0 .ok, .wake 0 .ok, .worker 0 0])
    (fun s => firstFailed s && (s.reqs 0).prep.requestId == 7#64) (by decide +kernel)
  obtain ⟨hfirst, hreq⟩ := Bool.and_eq_true_iff.mp hP
  have hown := ownsId_of_single (hr.mono fun _ _ h => h.1)
  rw [beq_iff_eq.mp hreq] at hown
  have hfail := writeFailed_of_first hfirst
  exact ⟨s, hr.mono fun _ _ h => h.2.1, hfail,
    (failed_write_unannounced (hr.mono fun _ _ h => h.2) hown hfail).1⟩

/-- The event is an attempt to notify chunk 0 of request 0. -/
def notifiesFirst : Event → Bool
  | .post q .sendImm k _ _ _ => q == 0 && k == 0
  | _ => false

theorem post_of_notifiesFirst {e : Event} (h : notifiesFirst e = true) :
    ∃ queue wr st, e = .post 0 .sendImm 0 queue wr st := by
  unfold notifiesFirst at h
  split at h
  · rename_i q k queue wr st
    simp only [Bool.and_eq_true, beq_iff_eq] at h
    obtain ⟨rfl, rfl⟩ := h
    exact ⟨queue, wr, st, rfl⟩
  · cases h

/-- Served, the wake-up of the failed completion announces the chunk, and the wait returns `0`. -/
theorem failed_write_announced : ¬ ∀ s, (transportSystem 1 1#32).Reach (SendGuard 7#64) s →
    s.OwnsId 0 7#64 → ∀ k, s.WriteFailed 0 k →
    (∀ queue wr st, .post 0 .sendImm k queue wr st ∉ s.trace) ∨
      ∀ st, (s.reqs 0).owner ≠ .returned (.waited .ok st) := by
  intro hall
  obtain ⟨s, hr, hP⟩ := transportSystem_exec 1 1#32 sendGuardb sendGuard_of_b
    (sendTwo ++ [.completion 0 failedWriteCr urmaSuccess, .wake 0 .ok, .wake 0 .ok] ++
      List.replicate 7 (.worker 0 0) ++ [.completion 0 secondWriteCr urmaSuccess, .wake 0 .ok, .wake 0 .ok] ++
      List.replicate 6 (.worker 0 0) ++ .callWait 0 false :: List.replicate 3 (.owner 0 .woken))
    (fun s => firstFailed s && (s.reqs 0).prep.requestId == 7#64 &&
      (s.reqs 0).owner == .returned (.waited .ok urmaSuccess) && s.trace.any notifiesFirst)
    (by decide +kernel)
  simp only [Bool.and_eq_true, beq_iff_eq, List.any_eq_true] at hP
  obtain ⟨⟨⟨hfirst, hreq⟩, howner⟩, e, he, hnotify⟩ := hP
  have hown := ownsId_of_single (hr.mono fun _ _ h => h.1)
  rw [hreq] at hown
  rcases hall s (hr.mono fun _ _ h => h.2) hown 0 (writeFailed_of_first hfirst) with hno | hno
  · obtain ⟨queue, wr, st, rfl⟩ := post_of_notifiesFirst hnotify
    exact hno queue wr st he
  · exact hno _ howner

end OsTransport
