/-
  Nothing that is sent gets lost.

  `EndToEnd` says what a report is worth; here it is that the reports come.  A notify that the
  provider has accepted goes through four hands, and is in one of them at any time:

  1. the provider: under way, or arrived (`Conveyed`);
  2. the thread that handles the completion: its wake-up is being made;
  3. the pool: the wake-up is pending;
  4. the worker: the wake-up has been served (`Lane.Minds` for 2 to 4).

  The one way out of 2 is a wake-up that finds no context, and a context is missing only when no
  task waits any more (`Lane.Course`).  So when all hands are empty, each task of the receive has
  been served its wake-up, and has called back (`called_back`).

  Three invariants make this a proof about runs, not about one wake-up:

  1. `minds_step`, on the lane: a wake-up that somebody minds is still minded after any step but a
     cancel or a failed lookup; `minded_reach` carries it to a node, where a handled completion has
     made the wake-up in the first place;
  2. `conveyed_reach`, on the cluster: an accepted notify is under way or has arrived, as long as the
     provider does not give it up.  This is where the provider's assumptions are used;
  3. `AtRest.handled`: with nothing under way and nothing left to handle, 2 says that the completion
     has been handled, and 1 that the task it wakes has been served.

  `transfer_arrives` puts the rest together: the sender's tasks have all run because its writes
  complete (`AtRest.not_outstanding`), both sides cut the transfer into the same chunks
  (`Transfer.chunks_length`), and a receive all of whose tasks have run releases its waiter
  (`completed_recv`).
-/
import OsTransport.EndToEnd
import OsTransport.Selection

namespace OsTransport

open Network Transition

/-! ## Wake-ups

In the lane: a wake-up that is made is served, unless it finds no task that waits for it. -/

section Lanes

variable {κ α : Type*} [DecidableEq κ] {r : ReqId} {L L' : Lane κ α} {l : LaneLabel κ α}
  {u : BitVec 64}

omit [DecidableEq κ] in
/-- A wake-up with the data `u` has been served, is pending, or is being made.  These are the hands
    2 to 4 of the header. -/
inductive Lane.Minds (L : Lane κ α) (u : BitVec 64) : Prop
  | served (h : u ∈ L.served)
  | pending {w : Nat} (h : u ∈ L.wakes w)
  | waking {c : κ} {w : Nat} (h : L.calls c = .waking u w)

/-- Only a cancel or a failed allocation loses a wake-up.  A wake-up that misses is served all the
    same: it has had its look at the queue. -/
theorem minds_step (h : L.Minds u) (hs : LaneStep r L l L') (hdrop : ∀ c, l ≠ .dropWake c)
    (hcancel : ∀ c, l ≠ .cancelQueue c) : L'.Minds u := by
  have hcalls : ∀ {c : κ} {pc : LaneCall} {c' : κ} {w : Nat}, L.calls c' = .waking u w →
      (∀ w, L.calls c ≠ .waking u w) → Function.update L.calls c pc c' = .waking u w := by
    intro c pc c' w hc hne
    rwa [Function.update_of_ne]
    rintro rfl
    exact hne w hc
  cases hs with
  | tau => exact h
  | @submit c hc | @giveUp c hc | @attach c _ _ hc | @record c _ _ _ _ hc | @lookWake c _ _ hc
  | @lookCancel c _ hc | @uncount c _ hc =>
    cases h with
    | served hu => exact .served hu
    | pending hu => exact .pending hu
    | waking hu => exact .waking (hcalls hu fun w hx => by rw [hc] at hx; cases hx)
  | @pushWake c u' w' hc =>
    have hself : ∀ x ∈ L.wakes w' ++ [u'], x ∈ Function.update L.wakes w' (L.wakes w' ++ [u']) w' :=
      fun x hx => by rwa [Function.update_self]
    cases h with
    | served hu => exact .served hu
    | @pending w hu =>
      by_cases hw : w = w'
      · obtain rfl := hw
        exact .pending (hself u (List.mem_append_left _ hu))
      · refine .pending (w := w) ?_
        show u ∈ Function.update L.wakes w' _ w
        rwa [Function.update_of_ne hw]
    | @waking c' w hu =>
      by_cases hcc : c' = c
      · -- it is the one that becomes pending
        subst hcc
        cases hc.symm.trans hu
        exact .pending (hself u (List.mem_append_right _ (List.mem_singleton_self _)))
      · refine .waking (c := c') (w := w) ?_
        show Function.update L.calls c _ c' = _
        rwa [Function.update_of_ne hcc]
  | dropWake => exact absurd rfl (hdrop _)
  | cancelQueue => exact absurd rfl (hcancel _)
  | @take w' u' us _ _ _ hwake | @miss w' u' us _ hwake =>
    cases h with
    | served hu => exact .served (List.mem_append_left _ hu)
    | @pending w hu =>
      by_cases hw : w = w'
      · obtain rfl := hw
        rw [hwake] at hu
        rcases List.mem_cons.mp hu with rfl | hu
        · exact .served (List.mem_append_right _ (List.mem_singleton_self _))
        · refine .pending (w := w) ?_
          show u ∈ Function.update L.wakes w us w
          rwa [Function.update_self]
      · refine .pending (w := w) ?_
        show u ∈ Function.update L.wakes w' us w
        rwa [Function.update_of_ne hw]
    | waking hu => exact .waking hu
  | finish | account =>
    cases h with
    | served hu => exact .served hu
    | pending hu => exact .pending hu
    | waking hu => exact .waking hu

/-- Only attaching makes a task wait.  So where no task waits, none will, once the request has
    attached its own. -/
theorem noneWait_step (h : ∀ w, L.queue w = []) (hs : LaneStep r L l L')
    (hatt : ∀ c w nodes, l ≠ .attach c w nodes) : ∀ w, L'.queue w = [] := by
  cases hs with
  | attach => exact absurd rfl (hatt _ _ _)
  | @cancelQueue c w' hc =>
    exact (Function.forall_update_iff L.queue fun _ x => x = []).mpr ⟨rfl, fun w _ => h w⟩
  | @take w' _ _ _ _ _ _ hpop =>
    rw [h w'] at hpop
    cases hpop
  | _ => exact h

end Lanes

/-! ## On one node

From the completion to the wake-up, and back from the lane to the node. -/

section Node

variable {workerCount : Nat} {capacity : BitVec 32} {ok : Transport → Action → Prop}
  {s s' : Transport} {q : Nat} {r : ReqId}

/-- A registered request stays registered. -/
theorem bound_kept {a : Action} (hr : (transportSystem workerCount capacity).Reach ok s)
    (hs : s.step a = some s') (hb : (s.reqs q).bound = true) : (s'.reqs q).bound = true := by
  have hview : (s'.view q).req.bound = true := by
    rcases view_step hr hs q with heq | hstep
    · rw [heq]
      exact hb
    · generalize s'.view q = v' at hstep
      have hb' : (s.view q).req.bound = true := hb
      cases hstep with
      | register => rfl
      | _ => exact hb'
  exact hview

/-- A request whose tasks have just been queued is not registered yet.  Its call is still in the
    pool; registering comes after it. -/
theorem unbound_of_recording (hr : (transportSystem workerCount capacity).Reach ok s) {w k : Nat}
    (hc : (lane r s.pool).calls (.caller q) = .recording w k) : (s.reqs q).bound = false := by
  obtain ⟨sub, hphase⟩ := submit_of_recording hr hc
  have hinv : RequestInv q (s.view q) := request_inv hr q
  have hsubmitting : (s.view q).req.caller = .submitting := by
    by_contra hne
    rw [hinv.silent.submit hne] at hphase
    cases hphase
  exact (hinv.stage.of_submitting hsubmitting).2.2.1

/-- Where a completion in the history comes from.  It was there, or this step handles it. -/
theorem completion_step {a : Action} (hs : s.step a = some s') {cr : UrmaCr}
    (hcr : .completion cr ∈ s'.trace) :
    .completion cr ∈ s.trace ∨ ∃ k status, a = .completion k cr status := by
  cases (Transport.move_of_step hs).traffic with
  | quiet _ htrace hev =>
    rw [htrace] at hcr
    exact (List.mem_append.mp hcr).imp_right fun hmem => by cases hev _ hmem
  | post _ _ htrace =>
    rw [htrace] at hcr
    exact (List.mem_append.mp hcr).imp_right fun hmem => by cases List.mem_singleton.mp hmem
  | handled htrace hev =>
    rw [htrace] at hcr
    refine (List.mem_append.mp hcr).imp_right fun hmem => ?_
    rcases List.mem_cons.mp hmem with heq | hmem
    · cases heq
      exact ⟨_, _, rfl⟩
    · cases hev _ hmem

/-- The completion is to wake a task of request id `r`. -/
def Wakes (r : ReqId) (cr : UrmaCr) : Prop :=
  ∃ tag, Transport.wakeUpUserData cr = some tag ∧ tag.requestId.setWidth 64 = r

/-- Nobody disturbs the request, and no completion is to wake it before it is registered.  A
    completion that comes earlier finds no context, and its wake-up is lost for good. -/
def Attended (q : Nat) (r : ReqId) (s : Transport) (a : Action) : Prop :=
  Untroubled q r s a ∧
    ∀ k cr status, a = .completion k cr status → Wakes r cr → (s.reqs q).bound = true

/-- A request of which a completion has been handled is registered. -/
theorem bound_of_wakes (hok : ∀ s a, ok s a → Attended q r s a)
    (h : (transportSystem workerCount capacity).Reach ok s) :
    ∀ cr, .completion cr ∈ s.trace → Wakes r cr → (s.reqs q).bound = true := by
  refine h.invariant (I := fun s => ∀ cr, .completion cr ∈ s.trace → Wakes r cr →
    (s.reqs q).bound = true) ?_ ?_
  · rintro s rfl cr hcr
    cases hcr
  · intro s a s' hr hI ha hs cr hcr hwakes
    refine bound_kept hr hs ?_
    rcases completion_step hs hcr with hold | ⟨k, status, rfl⟩
    · exact hI cr hold hwakes
    · exact (hok s _ ha).2 k cr status rfl hwakes

/-- A wake-up that was handled is minded, unless no task waits.  When it was handled the request was
    registered, so it found a context or there was nothing left to do. -/
theorem minded_reach (hok : ∀ s a, ok s a → Attended q r s a)
    (h : (transportSystem workerCount capacity).Reach ok s) (hid : s.OwnsId q r) {cr : UrmaCr}
    (hcr : .completion cr ∈ s.trace) {tag : UserData} (htag : Transport.wakeUpUserData cr = some tag)
    (hr : tag.requestId.setWidth 64 = r) :
    (lane r s.pool).Minds tag.userCtx ∨ ∀ w, (lane r s.pool).queue w = [] := by
  let J : Transport → Prop := fun s => ∀ cr tag, .completion cr ∈ s.trace →
    Transport.wakeUpUserData cr = some tag → tag.requestId.setWidth 64 = r →
      (lane r s.pool).Minds tag.userCtx ∨ ∀ w, (lane r s.pool).queue w = []
  have hreach := own_reach (J := J) ?_ ?_ h hid
  · rcases hreach with ⟨hnil, -⟩ | ⟨-, hJ⟩
    · have hb := bound_of_wakes hok h cr hcr ⟨tag, htag, hr⟩
      exact absurd hnil ((request_inv h q).attached_ne_nil hb)
    · exact hJ cr tag hcr htag hr
  · -- the tasks are queued: nothing can have woken them
    intro s a s' w nodes hreach _ ha hs _ _ hlane _ cr tag hcr htag hr
    have hb := bound_of_wakes hok (hreach.step ha hs) cr hcr ⟨tag, htag, hr⟩
    have hself : (lane r s'.pool).calls (.caller q) = .recording w nodes.length := by
      rw [hlane]
      exact Function.update_self ..
    rw [unbound_of_recording (hreach.step ha hs) hself] at hb
    cases hb
  · intro s a s' l hreach hid' ha hs hne hJ hsees hatt cr tag hcr htag hr
    have hcalm := calm_step (fun s a h => (hok s a h).1) hreach (OwnsId.back hreach hs hid') ha hne hsees
    have hcancel : ∀ c, l ≠ .cancelQueue c := by
      rintro c rfl
      obtain ⟨hstep, -⟩ := hsees
      generalize lane r s'.pool = L' at hstep
      cases hstep with
      | cancelQueue hc => exact hcalm.cancels _ _ hc
    rcases completion_step hs hcr with hold | ⟨k, status, rfl⟩
    · exact (hJ cr tag hold htag hr).imp
        (fun h => minds_step h hsees.1 hcalm.drops hcancel) fun h => noneWait_step h hsees.1 hatt
    · -- the completion is handled: the wake-up is being made, unless there is no context
      have hb := (hok s _ ha).2 k cr status rfl ⟨tag, htag, hr⟩
      have hcaller : (s.reqs q).caller ≠ .submitting := by
        intro hc
        have hunbound : (s.reqs q).bound = false := ((request_inv hreach q).stage.of_submitting hc).2.2.1
        rw [hunbound] at hb
        cases hb
      cases Transport.move_of_step hs with
      | ignored _ hnone =>
        rw [hnone] at htag
        cases htag
      | @completion _ _ _ _ _ _ pool _ hsome hpool =>
        cases hsome.symm.trans htag
        rw [hr] at hpool
        show (lane r pool).Minds tag.userCtx ∨ ∀ w, (lane r pool).queue w = []
        rcases wake_lane hpool with ⟨hctx, hsame⟩ | hstep
        · right
          intro w
          rw [hsame]
          by_contra hwait
          obtain ⟨ctx, hsome⟩ := hcalm.ctx ⟨w, hwait⟩ hcaller
          rw [hctx] at hsome
          cases hsome
        · left
          generalize lane r pool = L' at hstep
          cases hstep with
          | lookWake => exact .waking (Function.update_self ..)
      | refuse ha | submit ha => cases ha

/-! ### A receive

When nothing is on its way to it, every chunk that was announced has been processed. -/

section Receive

variable {call : RecvCall} {cb : Nat}

/-- An attended request is not cancelled. -/
theorem notCancelled_of_attended {a : Action} (h : Attended q r s a) : NotCancelled r s a :=
  fun c hc => absurd hc (h.1.1.1 c)

/-- Once no wake-up is on its way, a task whose completion was handled has been dealt with.  Nobody
    makes its wake-up and none is pending, so it has been served; or no task waits, and this one has
    been taken too. -/
theorem processed_of_quiet (hok : ∀ s a, ok s a → Attended q call.clientKey s a)
    (h : (transportSystem workerCount capacity).Reach ok s) (hid : s.OwnsId q call.clientKey)
    (hrecv : Receives q call (s.reqs q).prep cb)
    (hquiet : ∀ u, ¬ s.pool.HasWakeUp call.clientKey u) {i : Nat}
    (hi : i < (s.reqs q).prep.chunks.length) {cr : UrmaCr} (hcr : .completion cr ∈ s.trace)
    (htag : Transport.wakeUpUserData cr =
      some (chunkTag (call.clientKey.setWidth 60) (s.reqs q).prep.chunks.length i)) :
    s.Processed q call.clientKey (s.reqs q).prep.chunks.length i := by
  have hvalid : isRequestIdValid call.clientKey = true :=
    hrecv.requestId ▸ hrecv.wellFormed.requestId_valid
  have hkey : (chunkTag (call.clientKey.setWidth 60) (s.reqs q).prep.chunks.length i).requestId.setWidth 64
      = call.clientKey := setWidth_valid hvalid
  have hb := bound_of_wakes hok h cr hcr ⟨_, htag, hkey⟩
  have hcalm := h.mono fun s a ha => notCancelled_of_attended (hok s a ha)
  refine ⟨?_, ?_⟩
  · rcases minded_reach hok h hid hcr htag hkey with hminds | hnone
    · rw [userCtx_chunkTag] at hminds
      cases hminds with
      | served hu => exact hu
      | pending hu =>
        obtain ⟨p, hp, huser⟩ := List.mem_map.mp hu
        obtain ⟨hp, hreq⟩ := List.mem_filter.mp hp
        exact absurd (.pending hp (beq_iff_eq.mp hreq) huser) (hquiet _)
      | waking hu => exact absurd (.waking (laneCall_waking.mp hu)) (hquiet _)
    · -- no task waits, so this one has been served
      by_contra hserved
      obtain ⟨w, t, ht, hptr⟩ := (waits_iff hcalm hid hrecv rfl hb hi).mpr hserved
      have hreq := (hrecv.built ((nodes_reach h).queued w t ht) (by rw [hptr])).1
      have hmem : t ∈ (lane call.clientKey s.pool).queue w :=
        List.mem_filter.mpr ⟨ht, beq_iff_eq.mpr hreq⟩
      rw [hnone w] at hmem
      cases hmem
  · rintro w ⟨t, r, u, hexec, hptr, -⟩
    obtain rfl := (sync_of_running h hid hexec).mp (by rw [hptr])
    exact hquiet u (.running hexec)

/-- When all tasks of a receive have been dealt with, its waiter is released.  The last of them to
    be marked brings the counters to the number of tasks. -/
theorem completed_recv
    (h : (transportSystem workerCount capacity).Reach (NotCancelled call.clientKey) s)
    (hid : s.OwnsId q call.clientKey) (hrecv : Receives q call (s.reqs q).prep cb)
    (hb : (s.reqs q).bound = true)
    (hall : ∀ i, i < (s.reqs q).prep.chunks.length →
      s.Processed q call.clientKey (s.reqs q).prep.chunks.length i) :
    (s.reqs q).sync.requestCompleted = true := by
  have hinv := request_inv h q
  have hcount := counts_recv h hid hrecv hb hall
  have hcompleted : (s.reqs q).sync.completedTasks = (s.view q).succeeded := hinv.counted.completed
  obtain ⟨-, -, ht, -, -⟩ := hinv.stage.of_bound (.inl hb)
  have htotal : (s.reqs q).sync.totalTasks = (s.reqs q).prep.chunks.length :=
    ht.trans hrecv.wellFormed.tasks_length
  have hpos := hrecv.wellFormed.chunks_pos
  by_cases hzero : (s.view q).failed = 0
  · refine hinv.counted.accounted (hinv.attached_ne_nil hb) ?_
    show (s.reqs q).sync.allTasksAccounted = true
    exact (TaskSync.allTasksAccounted_iff (by omega)).mpr (by omega)
  · exact hinv.counted.failed (by omega)

end Receive

end Node

/-! ## Between the nodes

From the notify to the completion at the other node. -/

section Network

variable {ν : Type*} [DecidableEq ν] {peer : ν → Ptr → ν} {workers : ν → Nat}
  {capacity : ν → BitVec 32} {memory : ν → BitVec 64 → BitVec 8}
  {ok : Cluster ν → Act ν Action (Carry ν) → Prop} {c c' : Cluster ν}

/-- What has arrived is waiting or has been handled.  It goes from the list of the provider to the
    history of the node in one step. -/
theorem Arrived.step {x : Act ν Action (Carry ν)} (hs : (wiring peer).net c x = some c') {v : ν}
    {imm : BitVec 64} (h : Arrived c v imm) : Arrived c' v imm := by
  rcases h with harr | ⟨cr, hcr, hrest⟩
  · cases x with
    | env y =>
      obtain ⟨f, hmove, rfl⟩ := Wiring.net_env hs
      left
      cases Fabric.carried hmove with
      | deliver => exact List.mem_append_left _ harr
      | _ => exact harr
    | node w a =>
      obtain ⟨s, f, hstep, hnote, rfl⟩ := Wiring.net_node hs
      cases Fabric.noted hstep hnote with
      | quiet | post | sent => exact .inl harr
      | @received k cr status _ events hside _ _ htrace =>
        by_cases heq : (v, imm) = (w, cr.immData)
        · -- it is the one that is handled
          cases heq
          refine .inr ⟨cr, ?_, hside, rfl⟩
          simp only [Function.update_self, htrace]
          exact List.mem_append_right _ List.mem_cons_self
        · exact .inl ((List.mem_erase_of_ne heq).mpr harr)
  · exact .inr ⟨cr, mem_trace_step hs hcr, hrest⟩

/-- A receive completion is that of a notify.  The provider raises no other. -/
theorem opcode_reach (h : (clusterSystem peer workers capacity memory).Reach ok c) (v : ν) :
    ∀ cr, .completion cr ∈ (c.node v).trace → cr.sR = true → cr.opcode = urmaCrOpcSendWithImm := by
  refine Wiring.local_invariant (I := fun s _ => ∀ cr, .completion cr ∈ s.trace → cr.sR = true →
    cr.opcode = urmaCrOpcSendWithImm) v ?_ ?_ ?_ ?_ h
  · intro cr hcr
    cases hcr
  · intro c a s f _ hI _ hs hn cr hcr hside
    rcases completion_step hs hcr with hold | ⟨k, status, rfl⟩
    · exact hI cr hold hside
    · have hnoted : Fabric.Noted peer c.env v (c.node v) (.completion k cr status) s f :=
        Fabric.noted hs hn
      cases hnoted with
      | quiet ha => exact absurd rfl (ha k cr status)
      | post hcause => cases hcause
      | sent hlocal =>
        rw [hlocal] at hside
        cases hside
      | received _ hopcode => exact hopcode
  · exact fun c w a s f _ hI _ _ _ _ => hI
  · exact fun c y f _ hI _ _ => hI

/-- An accepted notify of request `q` of node `u` is under way, or its immediate has arrived.  It is
    hand 1 of the header, and what comes after it. -/
def Conveyed (peer : ν → Ptr → ν) (u : ν) (q : Nat) (wr : UrmaJfsWr) (c : Cluster ν) : Prop :=
  ∀ op k queue, .post q op k queue wr urmaSuccess ∈ (c.node u).trace →
    (∃ p ∈ c.env.flight, p.src = u ∧ p.req = q ∧ p.wr = wr ∧ p.dst = peer u wr.tjetty) ∨
      ∃ posted ∈ wr.announces, ∃ imm, Survives posted imm ∧ Arrived c (peer u wr.tjetty) imm

/-- A node hands its notifies to the provider, and takes an immediate only as it handles it. -/
theorem Conveyed.node {u w : ν} {a : Action} {q : Nat} {wr : UrmaJfsWr} (h : Conveyed peer u q wr c)
    (hs : (wiring peer).net c (.node w a) = some c') : Conveyed peer u q wr c' := by
  intro op k queue hpost
  have harrived := fun {v : ν} {imm : BitVec 64} (harr : Arrived c v imm) => Arrived.step hs harr
  obtain ⟨s, f, hstep, hnote, rfl⟩ := Wiring.net_node hs
  have hn := Fabric.noted hstep hnote
  have hold : .post q op k queue wr urmaSuccess ∈ (c.node u).trace → (∀ p ∈ c.env.flight, p ∈ f.flight) →
      (∃ p ∈ f.flight, p.src = u ∧ p.req = q ∧ p.wr = wr ∧ p.dst = peer u wr.tjetty) ∨
        ∃ posted ∈ wr.announces, ∃ imm, Survives posted imm ∧
          Arrived ⟨Function.update c.node w s, f⟩ (peer u wr.tjetty) imm := by
    intro hmem hflight
    rcases h op k queue hmem with ⟨p, hp, hown⟩ | ⟨posted, hposted, imm, hsurvives, harr⟩
    · exact .inl ⟨p, hflight p hp, hown⟩
    · exact .inr ⟨posted, hposted, imm, hsurvives, harrived harr⟩
  by_cases hw : u = w
  · subst hw
    simp only [Function.update_self] at hpost
    cases hn with
    | quiet _ htrace hev =>
      rw [htrace] at hpost
      refine hold ((List.mem_append.mp hpost).resolve_right fun hmem => ?_) fun p hp => hp
      cases hev _ hmem
    | post _ htrace =>
      rw [htrace] at hpost
      rcases List.mem_append.mp hpost with hmem | hmem
      · exact hold hmem fun p hp => List.mem_append_left _ hp
      · cases List.mem_singleton.mp hmem
        exact .inl ⟨⟨u, peer u wr.tjetty, q, op, k, wr, wr.copies⟩,
          List.mem_append_right _ (by simp [Fabric.accepts]), rfl, rfl, rfl, rfl⟩
    | sent _ _ htrace hev | received _ _ _ htrace hev =>
      rw [htrace] at hpost
      refine hold ((List.mem_append.mp hpost).resolve_right fun hmem => ?_) fun p hp => hp
      rcases List.mem_cons.mp hmem with heq | hmem
      · cases heq
      · cases hev _ hmem
  · simp only [Function.update_of_ne hw] at hpost
    refine hold hpost fun p hp => ?_
    cases hn with
    | post => exact List.mem_append_left _ hp
    | _ => exact hp

/-- The provider delivers a notify or keeps it; giving it up is excluded. -/
theorem Conveyed.env {u : ν} {y : Carry ν} {q : Nat} {wr : UrmaJfsWr} (h : Conveyed peer u q wr c)
    (hann : wr.announces ≠ [])
    (hfail : ∀ i p, y = .fail i → c.env.flight[i]? = some p → ¬(p.src = u ∧ p.req = q))
    (hs : (wiring peer).net c (.env y) = some c') : Conveyed peer u q wr c' := by
  intro op k queue hpost
  have harrived := fun {v : ν} {imm : BitVec 64} (harr : Arrived c v imm) => Arrived.step hs harr
  obtain ⟨f, hmove, rfl⟩ := Wiring.net_env hs
  rcases h op k queue hpost with ⟨p, hp, hsrc, hreq, hwr, hdst⟩ | ⟨posted, hposted, imm, hsurvives, harr⟩
  · cases Fabric.carried hmove with
    | @copy i j p' before after byte left right _ hflight =>
      left
      rw [hflight, List.mem_append, List.mem_cons] at hp
      rcases hp with hp | rfl | hp
      · exact ⟨p, List.mem_append_left _ hp, hsrc, hreq, hwr, hdst⟩
      · exact ⟨{ p with todo := left ++ right }, by simp, hsrc, hreq, hwr, hdst⟩
      · exact ⟨p, List.mem_append_right _ (List.mem_cons_of_mem _ hp), hsrc, hreq, hwr, hdst⟩
    | @finish i p' before after hflight _ hnone =>
      rw [hflight, List.mem_append, List.mem_cons] at hp
      rcases hp with hp | rfl | hp
      · exact .inl ⟨p, List.mem_append_left _ hp, hsrc, hreq, hwr, hdst⟩
      · exact absurd (hwr ▸ hnone) hann
      · exact .inl ⟨p, List.mem_append_right _ hp, hsrc, hreq, hwr, hdst⟩
    | @deliver i imm posted p' before after hflight hmem hsurvives =>
      rw [hflight, List.mem_append, List.mem_cons] at hp
      rcases hp with hp | rfl | hp
      · exact .inl ⟨p, List.mem_append_left _ hp, hsrc, hreq, hwr, hdst⟩
      · -- it arrives
        refine .inr ⟨posted, hwr ▸ hmem, imm, hsurvives, .inl ?_⟩
        rw [← hdst]
        exact List.mem_append_right _ (List.mem_singleton_self _)
      · exact .inl ⟨p, List.mem_append_right _ hp, hsrc, hreq, hwr, hdst⟩
    | @fail i p' before after hp' hflight =>
      rw [hflight, List.mem_append, List.mem_cons] at hp
      rcases hp with hp | rfl | hp
      · exact .inl ⟨p, List.mem_append_left _ hp, hsrc, hreq, hwr, hdst⟩
      · exact absurd ⟨hsrc, hreq⟩ (hfail i p rfl hp')
      · exact .inl ⟨p, List.mem_append_right _ hp, hsrc, hreq, hwr, hdst⟩
    | store | internal => exact .inl ⟨p, hp, hsrc, hreq, hwr, hdst⟩
  · exact .inr ⟨posted, hposted, imm, hsurvives, harrived harr⟩

/-- In every run. -/
theorem conveyed_reach {u : ν} {q : Nat} {wr : UrmaJfsWr} (hann : wr.announces ≠ [])
    (hfail : ∀ (c : Cluster ν) i p, ok c (.env (.fail i)) → c.env.flight[i]? = some p →
      ¬(p.src = u ∧ p.req = q))
    (h : (clusterSystem peer workers capacity memory).Reach ok c) : Conveyed peer u q wr c := by
  refine System.Reach.invariant (I := Conveyed peer u q wr) ?_ ?_ h
  · rintro c rfl op k queue hpost
    cases hpost
  · intro c x c' _ hI hx hs
    cases x with
    | node w a => exact hI.node hs
    | env y =>
      refine hI.env hann ?_ hs
      rintro i p rfl hp
      exact hfail c i p hx hp

end Network

/-! ## The transfer

What it means that nothing of a transfer is on its way any more. -/

section Transfer

variable {ν : Type*} [DecidableEq ν] {peer : ν → Ptr → ν} {workers : ν → Nat}
  {capacity : ν → BitVec 32} {memory : ν → BitVec 64 → BitVec 8}
  {ok : Cluster ν → Act ν Action (Carry ν) → Prop} {c : Cluster ν} {b : Buffers ν} {q q' : Nat}
  {send : SendCall} {recv : RecvCall}

/-- Nothing hinders the transfer: nobody cancels either half of it or lets it run out of memory, the
    provider gives up none of its work requests, and the receiver has registered it before the first
    immediate is handled.  All else may happen: other requests, spurious wake-ups, any order of
    completions. -/
structure Unhindered (b : Buffers ν) (q q' : Nat) (send : SendCall) (recv : RecvCall)
    (c : Cluster ν) (x : Act ν Action (Carry ν)) : Prop where
  fenced : Fenced b q c x
  sender : ∀ a, x = .node b.sender a → Untroubled q send.serverKey (c.node b.sender) a
  receiver : ∀ a, x = .node b.receiver a → Attended q' recv.clientKey (c.node b.receiver) a
  kept : ∀ i p, x = .env (.fail i) → c.env.flight[i]? = some p → ¬(p.src = b.sender ∧ p.req = q)

/-- Nothing of the transfer is on its way any more.  The four hands through which a notify goes are
    empty, on both nodes. -/
structure AtRest (b : Buffers ν) (q : Nat) (send : SendCall) (recv : RecvCall) (c : Cluster ν) :
    Prop where
  flight : ∀ p ∈ c.env.flight, ¬(p.src = b.sender ∧ p.req = q)
  due : ∀ k queue wr st, .post q .write k queue wr st ∈ (c.node b.sender).trace →
    (b.sender, wr.userCtx) ∉ c.env.due
  arrived : ∀ imm, (receivedUserData imm).requestId.setWidth 64 = recv.clientKey →
    (b.receiver, imm) ∉ c.env.arrived
  sender : ∀ u, ¬ (c.node b.sender).pool.HasWakeUp send.serverKey u
  receiver : ∀ u, ¬ (c.node b.receiver).pool.HasWakeUp recv.clientKey u

/-- At rest no completion of a write is outstanding.  It would be due, or its write under way. -/
theorem AtRest.not_outstanding (hrest : AtRest b q send recv c)
    (h : (clusterSystem peer workers capacity memory).Reach ok c)
    (ht : Transfer peer b q q' send recv c) {k : Nat} {queue : SendQueue} {wr : UrmaJfsWr}
    {st : UrmaStatus} (hpost : .post q .write k queue wr st ∈ (c.node b.sender).trace) :
    wr.userCtx ∉ (c.node b.sender).outstanding := by
  have hr := reach_alone h b.sender
  intro hmem
  have hpos := List.count_pos_iff.mpr hmem
  rw [(balance_reach h b.sender).owed wr.userCtx] at hpos
  have hdue : c.env.due.count (b.sender, wr.userCtx) = 0 :=
    List.count_eq_zero.mpr (hrest.due _ _ _ _ hpost)
  rw [hdue, Nat.add_zero] at hpos
  obtain ⟨p, hp, htag⟩ := List.mem_map.mp (List.count_pos_iff.mp hpos)
  obtain ⟨hp, hsrc⟩ := List.mem_filter.mp hp
  have hsrc : p.src = b.sender := by simpa using hsrc
  -- the tag is of a write of this request and of no other
  obtain ⟨⟨queue', hpost'⟩, -⟩ := backed_reach h b.sender p hp hsrc
  have hown := (ownTag_of_posted hr ht.ownsServer hpost).mpr ⟨rfl, rfl⟩
  rw [← htag] at hown
  exact hrest.flight p hp ⟨hsrc, ((ownTag_of_posted hr ht.ownsServer hpost').mp hown).1⟩

omit [DecidableEq ν] in
/-- The two halves agree on the number of chunks.  Both cut the same length into chunks by the same
    function. -/
theorem Transfer.chunks_length (ht : Transfer peer b q q' send recv c) :
    ((c.node b.sender).reqs q).prep.chunks.length =
      ((c.node b.receiver).reqs q').prep.chunks.length := by
  obtain ⟨mem, hsend⟩ := ht.sent
  obtain ⟨mem', hrecv⟩ := ht.received
  obtain ⟨-, -, -, _, _, _, chunks, -, -, -, hsplit, htwo, hp⟩ := prepareSend_eq_some hsend
  obtain ⟨-, -, _, _, chunks', -, -, hsplit', hpos, hp'⟩ := prepareRecv_eq_some hrecv
  obtain ⟨-, -, hcount, -⟩ := commonSplitChunks_eq_some hsplit (by omega)
  obtain ⟨-, -, hcount', -⟩ := commonSplitChunks_eq_some hsplit' hpos
  have hlen := ht.sendLen
  have hlen' := ht.recvLen
  have hchunks : ((c.node b.sender).reqs q).prep.chunks = chunks := by
    rw [hp]
    rfl
  have hchunks' : ((c.node b.receiver).reqs q').prep.chunks = chunks' := by
    rw [hp']
    rfl
  rw [hchunks, hchunks', hcount, hcount', hlen, hlen']

/-- At rest the immediate of an accepted notify has been handled by the receiver.  It is not under
    way and not waiting, so `conveyed_reach` leaves only this. -/
theorem AtRest.handled (hrest : AtRest b q send recv c)
    (hfail : ∀ (c : Cluster ν) i p, ok c (.env (.fail i)) → c.env.flight[i]? = some p →
      ¬(p.src = b.sender ∧ p.req = q))
    (h : (clusterSystem peer workers capacity memory).Reach ok c)
    (ht : Transfer peer b q q' send recv c) {k : Nat} {queue : SendQueue} {wr : UrmaJfsWr}
    (hpost : .post q .sendImm k queue wr urmaSuccess ∈ (c.node b.sender).trace) :
    ∃ cr, .completion cr ∈ (c.node b.receiver).trace ∧ Transport.wakeUpUserData cr =
      some (chunkTag (recv.clientKey.setWidth 60)
        ((c.node b.receiver).reqs q').prep.chunks.length k) := by
  obtain ⟨mem, hsend⟩ := ht.sent
  have hr := reach_alone h b.sender
  obtain ⟨-, -, hkey, jettyInfo, _, _, _, hjetty, -⟩ := prepareSend_eq_some hsend
  have hann : wr.announces = [(chunkTag ((encodeRequestId send.clientKey).setWidth 60)
      ((c.node b.sender).reqs q).prep.chunks.length k).userCtx] := by
    rw [UrmaJfsWr.announces, notify_payload hr hsend hpost]
  rw [ht.chunks_length] at hann
  have hroute : peer b.sender wr.tjetty = b.receiver := by
    rw [tjetty_of_posted hr hpost hsend hjetty]
    exact ht.route jettyInfo hjetty
  have hconveyed : Conveyed peer b.sender q wr c := conveyed_reach (by rw [hann]; simp) hfail h
  rcases hconveyed _ k queue hpost with ⟨p, hp, hsrc, hreq, -⟩ | ⟨posted, hposted, imm, hsurvives, harr⟩
  · exact absurd ⟨hsrc, hreq⟩ (hrest.flight p hp)
  · rw [hann] at hposted
    obtain rfl := List.mem_singleton.mp hposted
    have hdata := receivedUserData_of_survives hkey hsurvives
    rw [hroute] at harr
    rcases harr with harr | ⟨cr, hcr, hside, rfl⟩
    · refine absurd harr (hrest.arrived imm ?_)
      rw [hdata, ht.clientKey]
      exact setWidth_valid hkey
    · refine ⟨cr, hcr, ?_⟩
      rw [Transport.wakeUpUserData, if_pos hside, if_pos (opcode_reach h _ cr hcr hside), hdata,
        ht.clientKey]

omit [DecidableEq ν] in
/-- Every byte of the buffers is in a chunk. -/
theorem Transfer.chunk_lt (ht : Transfer peer b q q' send recv c) {o i : Nat} (ho : o < b.len)
    (hi : o / defaultChunkSize.toNat = i) : i < ((c.node b.receiver).reqs q').prep.chunks.length := by
  obtain ⟨mem, hrecv⟩ := ht.received
  obtain ⟨-, -, _, _, chunks, -, -, hsplit, hpos, hp⟩ := prepareRecv_eq_some hrecv
  have hchunks : ((c.node b.receiver).reqs q').prep.chunks = chunks := by
    rw [hp]
    rfl
  obtain ⟨-, -, hcount, -⟩ := commonSplitChunks_eq_some hsplit hpos
  have hlen := ht.recvLen
  rw [defaultChunkSize_toNat] at hi
  rw [hchunks]
  omega

/-- A send that nothing hinders has posted its whole schedule when it is at rest, and is complete. -/
theorem AtRest.sent (hrest : AtRest b q send recv c)
    (h : (clusterSystem peer workers capacity memory).Reach (Unhindered b q q' send recv) c)
    (ht : Transfer peer b q q' send recv c) {st : UrmaStatus}
    (hret : ((c.node b.sender).reqs q).caller = .returned true st)
    (haccepted : ∀ e ∈ sendPosts q (c.node b.sender).trace, e.accepted = true) :
    (sendPosts q (c.node b.sender).trace).filterMap Event.place
        = schedule ((c.node b.receiver).reqs q').prep.chunks.length ∧
      ((c.node b.sender).reqs q).sync.requestCompleted = true := by
  obtain ⟨mem, hsend⟩ := ht.sent
  have hinfo : ∃ writeInfo, ((c.node b.sender).reqs q).prep.urmaInfo = .write writeInfo := by
    obtain ⟨-, -, -, _, _, _, _, -, -, -, -, -, hp⟩ := prepareSend_eq_some hsend
    rw [hp]
    exact ⟨_, rfl⟩
  obtain ⟨writeInfo, hinfo⟩ := hinfo
  obtain ⟨hplaces, -, hdone⟩ := pipeline_complete
    (ht.reach_sender (Untroubled q send.serverKey) (fun c a hx => hx.sender a rfl) h) ht.ownsServer
    hinfo haccepted hret (fun _ _ _ _ hpost => hrest.not_outstanding h ht hpost) hrest.sender
  rw [ht.chunks_length] at hplaces
  exact ⟨hplaces, hdone⟩

/-- Then the receiver has handled a completion for each chunk, and dealt with its task. -/
theorem AtRest.processed (hrest : AtRest b q send recv c)
    (h : (clusterSystem peer workers capacity memory).Reach (Unhindered b q q' send recv) c)
    (ht : Transfer peer b q q' send recv c) {cb : Nat}
    (hreceives : Receives q' recv ((c.node b.receiver).reqs q').prep cb)
    (hplaces : (sendPosts q (c.node b.sender).trace).filterMap Event.place
      = schedule ((c.node b.receiver).reqs q').prep.chunks.length)
    (haccepted : ∀ e ∈ sendPosts q (c.node b.sender).trace, e.accepted = true) {i : Nat}
    (hi : i < ((c.node b.receiver).reqs q').prep.chunks.length) :
    (∃ cr, .completion cr ∈ (c.node b.receiver).trace ∧ Transport.wakeUpUserData cr =
      some (chunkTag (recv.clientKey.setWidth 60)
        ((c.node b.receiver).reqs q').prep.chunks.length i)) ∧
    (c.node b.receiver).Processed q' recv.clientKey
      ((c.node b.receiver).reqs q').prep.chunks.length i := by
  have hr := reach_transport (Attended q' recv.clientKey) b.receiver
    (fun c a _ hx _ => hx.receiver a rfl) h
  -- the notify of the chunk is one of the posts
  have hplace : ((.sendImm, i) : UrmaOpcode × Nat) ∈
      (sendPosts q (c.node b.sender).trace).filterMap Event.place := by
    rw [hplaces]
    exact List.mem_flatMap.mpr ⟨i, List.mem_range.mpr hi, by simp⟩
  obtain ⟨e, he, hplace⟩ := List.mem_filterMap.mp hplace
  obtain ⟨hmem, hposts⟩ := List.mem_filter.mp he
  cases e with
  | post p op k queue wr st =>
    cases hplace
    obtain rfl : p = q := beq_iff_eq.mp hposts
    obtain rfl : st = urmaSuccess := beq_iff_eq.mp (haccepted _ he)
    obtain ⟨cr, hcr, htag⟩ := hrest.handled (fun c i p hx hp => hx.kept i p rfl hp) h ht hmem
    exact ⟨⟨cr, hcr, htag⟩, processed_of_quiet (fun _ _ hx => hx) hr ht.ownsClient hreceives
      hrest.receiver hi hcr htag⟩
  | _ => cases hplace

/-! ### The transfer of two chunks, undisturbed

The run of `EndToEnd`, to its end. -/

/-- What `pairOk` allows, without cancels and failed allocations; one thread handles the
    completions, and only of registered requests. -/
def quietOk (c : Cluster Bool) (x : Option (Act Bool Action (Carry Bool))) : Bool :=
  pairOk c x && match x with
    | some (.node _ (.caller _ alloc _)) => alloc == .ok
    | some (.node _ (.wake _ alloc)) => alloc == .ok
    | some (.node v (.completion k _ _)) => k == 0 && ((c.node v).reqs 0).bound
    | some (.node _ (.callCancel _ _)) => false
    | some (.node _ (.callCancelId _ _)) => false
    | some (.node _ (.owner _ _)) => false
    | _ => true

/-- The run below meets the conditions of the theorem, those of the run it is taken from, and is
    quiet. -/
def QuietGuard (c : Cluster Bool) (x : Act Bool Action (Carry Bool)) : Prop :=
  Unhindered pairBuffers 0 0 (plainSend 2097153#32) pairRecv c x ∧ PairGuard c x ∧
    ∀ v k cr status, x = .node v (.completion k cr status) → k = 0

/-- The sender's call has returned and its posts were accepted. -/
def quietSent (s : Transport) : Bool :=
  (s.reqs 0).caller == .returned true urmaSuccess && (sendPosts 0 s.trace).all Event.accepted

/-- No packet is under way, no immediate has to be handled, and no completion of a write. -/
def quietFabric (c : Cluster Bool) : Bool :=
  c.env.flight.isEmpty && c.env.arrived.isEmpty && (c.node false).trace.all fun
    | .post _ .write _ _ wr _ => decide ((false, wr.userCtx) ∉ c.env.due)
    | _ => true

/-- Worker 0 and thread 0 have nothing to do. -/
def quietNode (s : Transport) : Bool :=
  (s.pool.workers 0).pending.isEmpty && laneExec 7#64 (s.pool.workers 0).exec == .loop &&
    laneExec 8#64 (s.pool.workers 0).exec == .loop && s.pool.isIdle (.wake 0)

/-- What is evaluated is the guard. -/
theorem quietOk_guard (c : Cluster Bool) (x : Act Bool Action (Carry Bool))
    (m : Bool → BitVec 64 → BitVec 8) (h : quietOk c (some x) = true) :
    Act.steady x = true ∧ QuietGuard (c.withMemory m) x := by
  obtain ⟨hpair, hquiet⟩ := Bool.and_eq_true_iff.mp h
  obtain ⟨hsteady, hguard⟩ := pairOk_guard c x m hpair
  refine ⟨hsteady, ⟨hguard.1, ?_, ?_, ?_⟩, hguard, ?_⟩
  · rintro a rfl
    refine ⟨⟨?_, ?_⟩, ?_⟩
    · rintro p (⟨q, rfl, rfl | ⟨cond, _, _, _, rfl, -⟩⟩ | ⟨k, rfl, rfl⟩)
      all_goals cases hquiet
    · rintro alloc statuses rfl
      exact beq_iff_eq.mp hquiet
    · rintro k alloc rfl
      exact beq_iff_eq.mp hquiet
  · rintro a rfl
    refine ⟨⟨⟨?_, ?_⟩, ?_⟩, ?_⟩
    · rintro p (⟨q, rfl, rfl | ⟨cond, _, _, _, rfl, -⟩⟩ | ⟨k, rfl, rfl⟩)
      all_goals cases hquiet
    · rintro alloc statuses rfl
      exact beq_iff_eq.mp hquiet
    · rintro k alloc rfl
      exact beq_iff_eq.mp hquiet
    · rintro k cr status rfl -
      exact (Bool.and_eq_true_iff.mp hquiet).2
  · rintro i p rfl
    cases hpair
  · rintro v k cr status rfl
    exact beq_iff_eq.mp (Bool.and_eq_true_iff.mp hquiet).1

/-- Nothing wakes a worker of node `v` when worker 0 and thread 0 have nothing to do. -/
theorem quiet_pool {c : Cluster Bool} (h : pairSystem.Reach QuietGuard c) {v : Bool}
    (hquiet : quietNode (c.node v) = true) {r : ReqId} (hkey : r = 7#64 ∨ r = 8#64) (u : BitVec 64) :
    ¬ (c.node v).pool.HasWakeUp r u := by
  simp only [quietNode, Bool.and_eq_true, List.isEmpty_iff, beq_iff_eq] at hquiet
  obtain ⟨⟨⟨hpending, hserver⟩, hclient⟩, hidle⟩ := hquiet
  have hidle := isIdle_iff.mp hidle
  have hr := reach_transport (fun _ a => ∀ k cr status, a = .completion k cr status → k = 0) v
    (fun c a _ hx _ => fun k cr status ha => hx.2.2 v k cr status (by rw [ha])) h
  have hpool := pool_reach hr
  -- the pool has one worker, and only thread 0 wakes it
  have hnames : ∀ w, w ≠ 0 → ((c.node v).pool.workers w).pending = [] ∧
      ((c.node v).pool.workers w).exec = .loop := by
    intro w hw
    refine ⟨?_, (within_reach hpool).exec w ?_⟩
    · by_contra hne
      obtain ⟨p, hp⟩ := List.exists_mem_of_ne_nil _ hne
      have hlt := names_lt hpool p.requestId w (.inl (.inr (.inr (laneWakes_ne_nil hp rfl))))
      omega
    · rw [(PoolSys.running_lt hpool).1]
      omega
  have hthread : ∀ p r u w, (c.node v).pool.calls p = .waking r u w → p = .wake 0 := by
    refine hr.invariant (I := fun s => ∀ p r u w, s.pool.calls p = .waking r u w → p = .wake 0) ?_ ?_
    · rintro s rfl p r u w hc
      cases hc
    · intro s a s' _ hI ha hs p r u w hc
      rcases (Transport.move_of_step hs).pool with heq | ⟨pa, hpa, hpool⟩
      · exact hI p r u w (heq ▸ hc)
      · rcases waking_effect hpool hc with hold | rfl
        · exact hI p r u w hold
        · obtain ⟨k, cr, status, tag, rfl, rfl, -⟩ := hpa
          rw [ha k cr status rfl]
  rintro (@⟨p, w, hc⟩ | @⟨w, p, hp, -, -⟩ | @⟨w, t, hc⟩)
  · obtain rfl := hthread _ _ _ _ hc
    rw [hidle] at hc
    cases hc
  · by_cases hw : w = 0
    · rw [hw, hpending] at hp
      cases hp
    · rw [(hnames w hw).1] at hp
      cases hp
  · by_cases hw : w = 0
    · rw [← hw, hc] at hserver hclient
      rcases hkey with rfl | rfl
      · cases hserver
      · cases hclient
    · rw [(hnames w hw).2] at hc
      cases hc

/-- **A transfer that nothing hinders arrives**, whatever the provider.  When nothing of it is on its
    way any more, every chunk has been reported once, with its own tag, all its bytes are in place,
    and neither the waiter of the send nor that of the receive is left waiting. -/
theorem transfer_arrives {ε : Type*} {P : Provider ν ε} {n : Net ν Transport ε} (hP : P.Lawful)
    (happart : b.Apart)
    (h : (P.clusterSystem workers capacity memory).Reach
      (fun n x => Unhindered b q q' send recv (P.seen n) x) n)
    (ht : Transfer P.peer b q q' send recv (P.seen n)) {st : UrmaStatus}
    (hret : ((n.node b.sender).reqs q).caller = .returned true st)
    (haccepted : ∀ e ∈ sendPosts q (n.node b.sender).trace, e.accepted = true)
    (hrest : AtRest b q send recv (P.seen n)) :
    (∃ cb, recv.notifyCallback = some cb ∧
      ∀ i < ((n.node b.receiver).reqs q').prep.chunks.length, ∃ ret,
        callbacksOf ⟨q', i⟩ (n.node b.receiver).trace = [(cb, chunkTag (recv.clientKey.setWidth 60)
          ((n.node b.receiver).reqs q').prep.chunks.length i, ret)]) ∧
    (∀ o < b.len, b.Agree (P.view n.env).memory o) ∧
    ((n.node b.sender).reqs q).sync.requestCompleted = true ∧
    ((n.node b.receiver).reqs q').sync.requestCompleted = true := by
  have h := hP.reach_seen h
  generalize hc : P.seen n = c at h ht hrest
  have hnode : n.node = c.node := congrArg Net.node hc
  have hmemory : (P.view n.env).memory = c.env.memory := congrArg (fun c => c.env.memory) hc
  rw [hnode] at hret haccepted ⊢
  rw [hmemory]
  obtain ⟨mem, hrecv⟩ := ht.received
  obtain ⟨cb, hreceives⟩ := receives hrecv
  obtain ⟨hplaces, hdone⟩ := hrest.sent h ht hret haccepted
  have hprocessed := fun i hi => hrest.processed h ht hreceives hplaces haccepted (i := i) hi
  have hr := reach_transport (Attended q' recv.clientKey) b.receiver
    (fun c a _ hx _ => hx.receiver a rfl) h
  have hcalm := hr.mono fun s a ha => notCancelled_of_attended ha
  have hb : ((c.node b.receiver).reqs q').bound = true := by
    obtain ⟨⟨cr, hcr, htag⟩, -⟩ := hprocessed 0 hreceives.wellFormed.chunks_pos
    refine bound_of_wakes (fun _ _ hx => hx) hr cr hcr ⟨_, htag, ?_⟩
    exact setWidth_valid (prepareRecv_eq_some hrecv).2.1
  have hcalls : ∀ i < ((c.node b.receiver).reqs q').prep.chunks.length, ∃ ret,
      callbacksOf ⟨q', i⟩ (c.node b.receiver).trace = [(cb, chunkTag (recv.clientKey.setWidth 60)
        ((c.node b.receiver).reqs q').prep.chunks.length i, ret)] := by
    intro i hi
    obtain ⟨ret, -, hcalls⟩ := processed_recv hcalm ht.ownsClient hreceives hb hi (hprocessed i hi).2
    exact ⟨ret, hcalls⟩
  refine ⟨⟨cb, hreceives.callback, hcalls⟩, ?_, hdone,
    completed_recv hcalm ht.ownsClient hreceives hb fun i hi => (hprocessed i hi).2⟩
  -- a chunk that was called back was notified, and then its bytes are in place
  intro o ho
  obtain ⟨i, hi⟩ : ∃ i, o / defaultChunkSize.toNat = i := ⟨_, rfl⟩
  obtain ⟨ret, hcalls⟩ := hcalls i (ht.chunk_lt ho hi)
  have hfenced := h.mono fun _ _ hx => hx.fenced
  obtain ⟨queue, wr, hpost⟩ :=
    ht.notified hfenced (i := i) (.inr (by rw [hcalls]; exact List.cons_ne_nil _ _))
  exact ht.in_place happart (fun _ _ hx => hx) hfenced hpost ho hi

/-- The run of two chunks ends at rest, and all bytes are in place. -/
theorem transfer_arrives_pair : ∃ c, pairSystem.Reach QuietGuard c ∧
    (∀ o < 2097153, pairBuffers.Agree c.env.memory o) ∧
    ((c.node false).reqs 0).sync.requestCompleted = true ∧
    ((c.node true).reqs 0).sync.requestCompleted = true := by
  have hrun : (exec quietOk (quickStep pairPeer) pairStart
      (pairCalls ++ pairWrite 0 7 ++ pairNotify 0 ++ pairWrite 1 6 ++ pairNotify 1)).any
        (fun c => pairMade c.node && quietSent (c.node false) && quietFabric c &&
          quietNode (c.node false) && quietNode (c.node true)) = true := by
    decide +kernel
  obtain ⟨c, hexec, hdone⟩ := exec_any hrun
  have hcopy : ∀ (c : Cluster Bool) i j,
      (∀ p ∈ c.env.flight, p.src = pairBuffers.sender ∧ p.req = 0) → QuietGuard c (.env (.copy i j)) := by
    intro c i j howns
    have hfenced : Fenced pairBuffers 0 c (.env (.copy i j)) :=
      fun _ p byte hp _ => .inl (howns p (List.mem_of_getElem? hp))
    refine ⟨⟨hfenced, ?_, ?_, ?_⟩, ⟨hfenced, ?_⟩, ?_⟩
    · rintro a ⟨⟩
    · rintro a ⟨⟩
    · rintro i' p ⟨⟩
    · rintro v a ⟨⟩
    · rintro v k cr status ⟨⟩
  have hinit : pairSystem.Reach QuietGuard (pairStart.withMemory fun _ _ => 0#8) := .init rfl
  obtain ⟨m, hr⟩ := quick_reach (fun v q => v = pairBuffers.sender ∧ q = 0) quietOk quietOk_guard
    (fun c hok p hp => by
      simpa [pairBuffers] using List.all_eq_true.mp (Bool.and_eq_true_iff.mp hok).1 p hp)
    hcopy _ hinit hexec
  simp only [Bool.and_eq_true] at hdone
  obtain ⟨⟨⟨⟨hmade, hsent⟩, hfabric⟩, hsender⟩, hreceiver⟩ := hdone
  simp only [quietSent, quietFabric, Bool.and_eq_true, beq_iff_eq, List.isEmpty_iff,
    List.all_eq_true] at hsent hfabric
  obtain ⟨⟨hflight, harrived⟩, hdue⟩ := hfabric
  have hrest : AtRest pairBuffers 0 (plainSend 2097153#32) pairRecv (c.withMemory m) := by
    refine ⟨?_, ?_, ?_, quiet_pool hr hsender (.inl rfl), quiet_pool hr hreceiver (.inr rfl)⟩
    · intro p hp
      rw [show (c.withMemory m).env.flight = [] from hflight] at hp
      cases hp
    · intro k queue wr st hpost
      exact of_decide_eq_true (hdue _ hpost)
    · intro imm _ himm
      rw [show (c.withMemory m).env.arrived = [] from harrived] at himm
      cases himm
  obtain ⟨-, hbytes, hsend, hrecv⟩ := transfer_arrives (Fabric.provider_lawful pairPeer)
    pairBuffers_apart (hr.mono fun _ _ h => h.1)
    (pair_transfer (hr.mono fun _ _ h => h.2.1.2) hmade) hsent.1 hsent.2 hrest
  exact ⟨_, hr, hbytes, hsend, hrecv⟩

end Transfer

end OsTransport
