/-
  A send is in line.

  `Line` is the invariant of a send: the lane of the request, the history and the worker inside one
  of its tasks are where one baton says (`Baton`).  `line_step` shows that every step of any thread
  passes the baton on or drops it, and `line_reach` that a send is in line from the moment its tasks
  are queued.

  What disturbs a send stops it early and no more: a post that fails, a cancel, a wake-up without
  memory.  Left alone, it stops only when every chunk is announced (`exact`).

  The proof:

  1. `Line.frame` and `Line.worker`: whatever neither posts for the request nor moves the worker
     that is about to leaves the line as it is;
  2. the four steps of the pipeline, each from one holder of the baton to the next: `Line.complete`
     (a completion is handed over), `Line.serve` (a wake-up is served), `Line.notify` and
     `Line.write` (the worker posts);
  3. `Calm` collects what an undisturbed lane has: no cancel is on its way, no wake-up is dropped,
     and waiting tasks have a context to be found by.  `calm_step` proves it for runs that are
     `Untroubled`;
  4. `line_step` is the case split over the steps of the transport, `Line.start` the moment the
     tasks are queued, and `line_reach` the induction between them.

  In the parameter `exact` both kinds of runs share one proof: where it is `True` the baton stops only
  at the end, or at a post that failed.
-/
import OsTransport.SendTags

namespace OsTransport

open Transition

/-! ## The line

Lane, wire and worker, with one baton. -/

/-- Worker `w` is in the function of task `i` of the request with id `r`, about to post: its
    notify (`start`), or its write. -/
def Transport.Poised (s : Transport) (r : ReqId) (w i : Nat) (c : Body) : Prop :=
  (c = .start ∨ c = .write) ∧ s.body w = c ∧
    ∃ t u, (s.pool.workers w).exec = .running t r u ∧ t.ptr.index = i

/-- The call fails, or has failed. -/
def CallerPc.Fails (pc : CallerPc) : Prop := ∃ st, pc = .failing st ∨ pc = .returned false st

/-- A send whose tasks are queued as `nodes`: its lane, its posts and the worker inside one of its
    tasks are where the baton says. -/
structure Line (exact : Prop) (q : Nat) (r : ReqId) (s : Transport) (w₀ : Nat)
    (nodes : List (TaskNode ArgPtr)) (b : Baton) : Prop where
  /-- The nodes are those the pool has made of the tasks of the call, in their order. -/
  created : List.Forall₂ (s.reqs q).prep.submission.Created (s.reqs q).prep.tasks nodes
  /-- The lane of the id is where the baton is, and so is the history. -/
  lane : OnLane exact (lane r s.pool) w₀ nodes b
  wire : Wire q r nodes.length exact s.trace s.outstanding b
  /-- Nobody is about to post but the holder of the baton, and the holder is. -/
  poised : ∀ w i c, s.Poised r w i c → b.acts = some (i, c)
  held : ∀ i c, b.acts = some (i, c) → s.Poised r w₀ i c
  /-- The call has the baton until its own write, -/
  caller : (s.reqs q).caller = .submitting ∨ (s.reqs q).caller = .writing → b = .first
  /-- which it has posted when it returns success, and behind which there is nothing if it fails. -/
  returned : ∀ st, (s.reqs q).caller = .returned true st → sendPosts q s.trace ≠ []
  failed : (s.reqs q).caller.Fails → b = .stopped ∧ (sendPosts q s.trace).length ≤ 1

section Line

variable {workerCount : Nat} {capacity : BitVec 32} {ok : Transport → Action → Prop}
  {s s' : Transport} {q : Nat} {r : ReqId} {exact : Prop} {w₀ : Nat}
  {nodes : List (TaskNode ArgPtr)} {b b' : Baton} {writeInfo : UrmaWriteInfo}

/-- Steps that neither post for the request nor move a worker that is about to.  Lane and wire are
    given as they are after the step, so that one lemma serves every thread. -/
theorem Line.frame (h : Line exact q r s w₀ nodes b)
    (hlane : OnLane exact (OsTransport.lane r s'.pool) w₀ nodes b')
    (hwire : Wire q r nodes.length exact s'.trace s'.outstanding b') (hacts : b'.acts = b.acts)
    (hfirst : b = .first → b' = .first) (hstopped : b = .stopped → b' = .stopped)
    (hposts : sendPosts q s'.trace = sendPosts q s.trace)
    (hpoised : ∀ w i c, s'.Poised r w i c ↔ s.Poised r w i c)
    (hprep : (s'.reqs q).prep = (s.reqs q).prep)
    (hcaller : (s'.reqs q).caller = .submitting ∨ (s'.reqs q).caller = .writing →
      (s.reqs q).caller = .submitting ∨ (s.reqs q).caller = .writing)
    (hreturned : ∀ st, (s'.reqs q).caller = .returned true st →
      (s.reqs q).caller = .returned true st)
    (hfailed : (s'.reqs q).caller.Fails → (s.reqs q).caller.Fails) :
    Line exact q r s' w₀ nodes b' := by
  constructor
  · rw [hprep]
    exact h.created
  · exact hlane
  · exact hwire
  · intro w i c hp
    rw [hacts]
    exact h.poised w i c ((hpoised w i c).mp hp)
  · intro i c hb
    rw [hacts] at hb
    exact (hpoised w₀ i c).mpr (h.held i c hb)
  · intro hc
    exact hfirst (h.caller (hcaller hc))
  · intro st hc
    rw [hposts]
    exact h.returned st (hreturned st hc)
  · intro hc
    rw [hposts]
    obtain ⟨hb, hlen⟩ := h.failed (hfailed hc)
    exact ⟨hstopped hb, hlen⟩

/-- A worker poised for the request is its worker.  Its tasks were attached to one worker, so no
    other can have taken one up. -/
theorem Line.worker (h : Line exact q r s w₀ nodes b) {w : Nat} {t : TaskNode ArgPtr}
    {u : BitVec 64} (hexec : (s.pool.workers w).exec = .running t r u) : w = w₀ := by
  refine h.lane.at_.worker_of_exec ?_
  rw [lane_exec, hexec, laneExec, if_pos rfl]
  simp

/-- Another baton in the same place of the lane.  The lane does not show what has been posted:
    before the first write and with it in flight it looks the same. -/
theorem OnLane.pass {L : Lane Proc ArgPtr} (h : OnLane exact L w₀ nodes b)
    (hsignal : b'.signal = b.signal) (hnext : b' = .stopped ∨ b ≠ .stopped ∧ b'.next = b.next)
    (hfits : b'.Fits nodes.length) : OnLane exact L w₀ nodes b' where
  at_ := h.at_
  signal := hsignal ▸ h.signal
  queue := by
    rcases hnext with hb | ⟨hb, hnext⟩
    · exact .inl hb
    · rw [hnext]
      exact .inr (h.queue.resolve_left hb)
  fits := hfits

/-- Where the baton is after the write of chunk `k` was posted with result `st`.  A post that failed
    leaves no completion to wait for, so the send stops there. -/
def writePosted (k : Nat) (x : BitVec 64) (st : UrmaStatus) : Baton :=
  if st = urmaSuccess then .flight k x else .stopped

/-- After the notify of chunk `i` of `n`.  The last one ends the send as well. -/
def notifyPosted (n i : Nat) (st : UrmaStatus) : Baton :=
  if st = urmaSuccess ∧ i + 1 < n then .writing i else .stopped

section Post

variable {n k : Nat} {trace : List Event} {out : List (BitVec 64)} {queue : SendQueue}
  {wr : UrmaJfsWr} {st : UrmaStatus}

/-- The write of chunk `k` after the posts of the chunks before it.  No write of the request was in
    flight, so its tag is the only one of the request on the wire. -/
theorem Wire.postWrite (h : Wire q r n exact trace out b) (queue : SendQueue) (st : UrmaStatus)
    (hb : b ≠ .stopped) (hown : b.own = [])
    (hplaces : b.places = schedule k) (hk : k < n) (htag : ownTag r wr.userCtx = true) :
    Wire q r n exact (trace ++ [.post q .write k queue wr st])
      (if st = urmaSuccess then out ++ [wr.userCtx] else out) (writePosted k wr.userCtx st) := by
  unfold writePosted
  by_cases hst : st = urmaSuccess
  · rw [if_pos hst, if_pos hst, hst]
    refine h.post hb hown (by simp) (by simp) ?_ ?_ ?_ rfl
    · rw [hplaces]
      rfl
    · rw [if_pos htag]
      rfl
    · rintro i x hx
      cases hx
      exact ⟨rfl, rfl, rfl⟩
  · have hlast : Wire q r n exact (trace ++ [.post q .write k queue wr st])
        (if st = urmaSuccess then out ++ [wr.userCtx] else out) .stopped :=
      h.post_last hb hown (by simp) (hplaces ▸ schedule_write_le hk) fun hst' => absurd hst' hst
    rw [if_neg hst] at hlast ⊢
    rwa [if_neg hst]

/-- The notify of a chunk whose write is complete.  Its tag is none of the request, so its own
    completion wakes nobody. -/
theorem Wire.postNotify (h : Wire q r n exact trace out (.notifying k)) (queue : SendQueue)
    (st : UrmaStatus) (hk : k < n)
    (htag : ownTag r wr.userCtx = false) :
    Wire q r n exact (trace ++ [.post q .sendImm k queue wr st])
      (if st = urmaSuccess then out ++ [wr.userCtx] else out) (notifyPosted n k st) := by
  have hplaces : (Baton.notifying k).places ++ [(.sendImm, k)] = schedule (k + 1) := by
    rw [schedule_succ]
    simp [Baton.places]
  unfold notifyPosted
  by_cases hst : st = urmaSuccess ∧ k + 1 < n
  · rw [if_pos hst, if_pos hst.1, hst.1]
    refine h.post (by simp) rfl (fun _ => rfl) (by simp) hplaces.symm ?_ (by simp) rfl
    rw [htag]
    rfl
  · rw [if_neg hst]
    refine h.post_last (by simp) rfl (fun _ => rfl) (hplaces ▸ schedule_le hk) ?_
    intro hst'
    obtain rfl : k + 1 = n := by
      by_contra hne
      exact hst ⟨hst', by omega⟩
    exact ⟨hplaces, htag⟩

/-- Before the first write nothing is posted. -/
theorem Wire.unposted (h : Wire q r n exact trace out .first) : sendPosts q trace = [] := by
  have hsent := (h.sent (by simp)).1
  by_contra hne
  obtain ⟨e, he⟩ := List.exists_mem_of_ne_nil _ hne
  obtain ⟨-, hposts⟩ := List.mem_filter.mp he
  have hplace := List.filterMap_eq_nil_iff.mp hsent e he
  cases e with
  | post => cases hplace
  | _ => cases hposts

/-- A first write without a queue posts nothing, and that is all. -/
theorem Wire.refuse (h : Wire q r n exact trace out .first) : Wire q r n exact trace out .stopped := by
  constructor
  · intro hs
    exact absurd rfl hs
  · intro _
    rw [h.unposted]
    exact ⟨List.nil_prefix, by simp, fun _ => .inr (.inr rfl)⟩
  · exact h.own
  · intro i x hx
    cases hx
  · intro i hi
    cases hi
  · exact h.announced

/-- What was posted before.  Where places of the schedule lie behind the baton, the history has a
    post to show for them. -/
theorem Wire.posted (h : Wire q r n exact trace out b) (hb : b ≠ .stopped) (hplaces : b.places ≠ []) :
    ∃ op k queue wr st, .post q op k queue wr st ∈ trace := by
  have hsent := (h.sent hb).1
  have hne : sendPosts q trace ≠ [] := by
    intro hnil
    rw [hnil] at hsent
    exact hplaces hsent.symm
  obtain ⟨e, he⟩ := List.exists_mem_of_ne_nil _ hne
  obtain ⟨hmem, hposts⟩ := List.mem_filter.mp he
  cases e with
  | post q' op k queue wr st =>
    obtain rfl : q' = q := beq_iff_eq.mp hposts
    exact ⟨op, k, queue, wr, st, hmem⟩
  | _ => cases hposts

end Post

/-! ### Completions

A completion of a write is the only thing that wakes a worker for the send. -/

/-- Completions come from posted work requests, at most one each, and no immediate of the peer
    decodes to `r`. -/
def SendGuard (r : ReqId) (s : Transport) : Action → Prop
  | .completion _ cr _ =>
    (cr.sR = true → cr.decodedId ≠ r) ∧ (cr.sR = false → cr.userCtx ∈ s.outstanding)
  | _ => True

/-- The completion of a write of the request looks up its tag.  The tag comes back as it was posted,
    so the id decoded from it is that of the send. -/
theorem wakeUp_of_ownTag {cr : UrmaCr} (hside : cr.sR = false) (hown : ownTag r cr.userCtx = true) :
    Transport.wakeUpUserData cr = some (UserData.ofUserCtx cr.userCtx) ∧
      (UserData.ofUserCtx cr.userCtx).requestId.setWidth 64 = r := by
  obtain ⟨hid, hchunk⟩ := Bool.and_eq_true_iff.mp hown
  refine ⟨?_, beq_iff_eq.mp hid⟩
  have hlt := of_decide_eq_true hchunk
  unfold Transport.wakeUpUserData
  rw [if_neg (by simp [hside])]
  exact if_neg (by omega)

/-- Nothing else is looked up with the id of the request.  An immediate of the peer would be the
    other way in, and the guard keeps those from decoding to `r`. -/
theorem look_own {a : Action} {c : Proc} {u : BitVec 64} (hsees : SeesLane r s a (.lookWake c u) s')
    (hguard : SendGuard r s a) :
    ∃ k cr status, a = .completion k cr status ∧ cr.sR = false ∧ ownTag r cr.userCtx = true := by
  obtain ⟨-, ⟨-, hl⟩ | ⟨pa, hpa, -, -, rfl⟩⟩ := hsees
  · cases hl
  obtain ⟨k, cr, status, tag, -, rfl, htag, hr, -⟩ := hpa
  refine ⟨k, cr, status, rfl, ?_⟩
  unfold Transport.wakeUpUserData at htag
  cases hside : cr.sR with
  | true =>
    rw [if_pos hside] at htag
    obtain ⟨-, htag⟩ := Option.ite_none_right_eq_some.mp htag
    cases htag
    refine absurd ?_ (hguard.1 hside)
    rw [hr]
    exact (setWidth_valid (decodeRequestId_valid _)).symm
  | false =>
    rw [if_neg (by simp [hside])] at htag
    obtain ⟨hchunk, htag⟩ := Option.ite_none_left_eq_some.mp htag
    cases htag
    refine ⟨rfl, Bool.and_eq_true_iff.mpr ⟨beq_iff_eq.mpr hr.symm, ?_⟩⟩
    exact decide_eq_true (by omega)

/-- A wake-up finds the context or does nothing. -/
theorem wake_lane {pool pool' : PoolSys Proc ArgPtr} {c : Proc} {u : BitVec 64}
    (h : pool.step (.wake c r u) = some pool') :
    (lane r pool).ctx = none ∧ lane r pool' = lane r pool ∨
      LaneStep r (lane r pool) (.lookWake c u) (lane r pool') := by
  simp only [PoolSys.step, Option.ite_none_right_eq_some] at h
  obtain ⟨hidle, h⟩ := h
  have hc : laneCall r (pool.calls c) = .idle := laneCall_of_isIdle hidle
  split at h
  · rename_i hctx
    cases h
    exact .inl ⟨hctx, lane_setCall_same hc.symm⟩
  · rename_i ctx hctx
    cases h
    right
    rw [lane_setCall, laneCall, if_pos rfl]
    exact .lookWake hc hctx

/-! ### The steps of the pipeline

The ways the baton moves on. -/

/-- A task of the request that a worker executes names it. -/
theorem sync_of_running (hr : (transportSystem workerCount capacity).Reach ok s)
    (hid : s.OwnsId q r) {w : Nat} {t : TaskNode ArgPtr} {r' : ReqId} {u : BitVec 64}
    (hexec : (s.pool.workers w).exec = .running t r' u) : t.ptr.sync = q ↔ r' = r := by
  obtain ⟨hbuilt, hanswers⟩ := (nodes_reach hr).running w t r' u hexec
  rw [← hid _ hbuilt.made, ← hbuilt.requestId, answersWakeUp_requestId hanswers]

/-- A step that leaves the pool alone and posts nothing in front of a worker leaves it poised. -/
theorem poised_congr {w : Nat} (hexec : (s'.pool.workers w).exec = (s.pool.workers w).exec)
    (hbody : s'.body w = s.body w) (i : Nat) (c : Body) : s'.Poised r w i c ↔ s.Poised r w i c := by
  unfold Transport.Poised
  rw [hexec, hbody]

/-- The caller posts the write of chunk 0.  It is the one post of a send that no worker makes, and
    the one whose failure the call returns. -/
theorem Line.firstWrite (h : Line exact q r s w₀ nodes b) (hreq : SendReq s q writeInfo)
    (hid : (s.reqs q).prep.requestId = r) (hlen : nodes.length = (s.reqs q).prep.chunks.length)
    (hc : (s.reqs q).caller = .writing) {status ret : UrmaStatus} {s₁ : Transport}
    (hpost : s.post q .write 0 (sendWr writeInfo (s.reqs q).prep.chunks .write 0) status = (s₁, ret)) :
    ∃ b', Line exact q r (s₁.setReq q { s.reqs q with
      caller := if ret = urmaSuccess then .returned true urmaSuccess else .failing ret }) w₀ nodes b' := by
  obtain rfl : b = .first := h.caller (.inr hc)
  obtain ⟨hpool, -, hbody, -⟩ := post_same hpost
  have hpos : 0 < nodes.length := by
    rw [hlen]
    exact hreq.wellFormed.chunks_pos
  have hself : (s₁.setReq q { s.reqs q with
      caller := if ret = urmaSuccess then .returned true urmaSuccess else .failing ret }).reqs q
      = { s.reqs q with
        caller := if ret = urmaSuccess then .returned true urmaSuccess else .failing ret } :=
    Function.update_self ..
  -- nobody else is about to post
  have hnone : ∀ w i c, ¬ s.Poised r w i c := by
    intro w i c hp
    cases h.poised w i c hp
  have hline : ∀ {b' : Baton}, b'.signal = .none → b' = .stopped ∨ b'.next = 0 →
      b'.Fits nodes.length → b'.acts = none → b' ≠ .first →
      Wire q r nodes.length exact s₁.trace s₁.outstanding b' →
      (ret = urmaSuccess → sendPosts q s₁.trace ≠ []) →
      (ret ≠ urmaSuccess → b' = .stopped ∧ (sendPosts q s₁.trace).length ≤ 1) →
      Line exact q r (s₁.setReq q { s.reqs q with
        caller := if ret = urmaSuccess then .returned true urmaSuccess else .failing ret }) w₀ nodes b' := by
    intro b' hsignal hnext hfits hacts hfirst hwire hsent hrefused
    constructor
    · rw [hself]
      exact h.created
    · show OnLane exact (OsTransport.lane r s₁.pool) w₀ nodes b'
      rw [hpool]
      exact h.lane.pass hsignal (hnext.imp_right fun hn => ⟨by simp, hn⟩) hfits
    · exact hwire
    · intro w i c hp
      exact absurd ((poised_congr (by show (s₁.pool.workers w).exec = _; rw [hpool])
        (by show s₁.body w = _; rw [hbody]) i c).mp hp) (hnone w i c)
    · intro i c hb
      rw [hacts] at hb
      cases hb
    · rw [hself]
      intro hx
      split at hx <;> rcases hx with hx | hx <;> cases hx
    · rw [hself]
      intro st hx
      split at hx
      · rename_i hret
        exact hsent hret
      · cases hx
    · rw [hself]
      rintro ⟨st, hx⟩
      split at hx
      · rcases hx with hx | hx <;> cases hx
      · rename_i hret
        exact hrefused hret
  have hnil := h.wire.unposted
  -- refused before it reached the library, or posted with what it answered
  rcases post_wire hpost with ⟨-, rfl, rfl⟩ | ⟨queue, wr, hwr, htrace, hout⟩
  · exact ⟨.stopped, hline rfl (.inl rfl) trivial rfl (by simp) h.wire.refuse
      (by simp [urmaFail, urmaSuccess]) fun _ => ⟨rfl, by simp [hnil]⟩⟩
  · have hwire := h.wire.postWrite (k := 0) queue ret (by simp) rfl rfl hpos
      ((ownTag_of_sendWr hreq hwr).mpr ⟨hid, rfl⟩)
    rw [← htrace, ← hout] at hwire
    have hsent : sendPosts q s₁.trace = [.post q .write 0 queue wr ret] := by
      rw [htrace, sendPosts_post, hnil]
      rfl
    by_cases hret : ret = urmaSuccess
    · rw [writePosted, if_pos hret] at hwire
      exact ⟨.flight 0 wr.userCtx, hline rfl (.inr rfl) hpos rfl (by simp) hwire
        (fun _ => by simp [hsent]) fun hne => absurd hret hne⟩
    · rw [writePosted, if_neg hret] at hwire
      exact ⟨.stopped, hline rfl (.inl rfl) trivial rfl (by simp) hwire
        (fun _ => by simp [hsent]) fun _ => ⟨rfl, by simp [hsent]⟩⟩

/-- A worker inside a task of the request has posted and is now at `c`.  This is what notify and
    write have in common; what they post is in the wire, which is given. -/
theorem Line.worked (h : Line exact q r s w₀ nodes b) {w : Nat} {t : TaskNode ArgPtr}
    {u : BitVec 64} {c : Body} (hexec : (s.pool.workers w).exec = .running t r u)
    (hacts : b.acts ≠ none) (hsame : s'.pool = s.pool ∧ s'.reqs = s.reqs)
    (hbody : s'.body = Function.update s.body w c) (htrace : ∃ events, s'.trace = s.trace ++ events)
    (hwire : Wire q r nodes.length exact s'.trace s'.outstanding b')
    (hsignal : b'.signal = b.signal) (hnext : b' = .stopped ∨ b'.next = b.next)
    (hfits : b'.Fits nodes.length)
    (hacts' : c = .write ∧ b'.acts = some (t.ptr.index, .write) ∨
      c ≠ .start ∧ c ≠ .write ∧ b'.acts = none) :
    Line exact q r s' w₀ nodes b' := by
  obtain ⟨hpool, hreqs⟩ := hsame
  have hw := h.worker hexec
  have hself : s'.body w = c := by rw [hbody, Function.update_self]
  -- poised is what the worker does next, or nobody is
  have hposted : ∀ i c', s'.Poised r w i c' ↔ b'.acts = some (i, c') := by
    intro i c'
    unfold Transport.Poised
    rw [hself, hpool]
    rcases hacts' with ⟨rfl, hb⟩ | ⟨hstart, hwrite, hb⟩ <;> rw [hb]
    · constructor
      · rintro ⟨-, rfl, t', u', hexec', rfl⟩
        rw [hexec] at hexec'
        cases hexec'
        rfl
      · intro heq
        cases heq
        exact ⟨.inr rfl, rfl, t, u, hexec, rfl⟩
    · constructor
      · rintro ⟨hc, rfl, -⟩
        exact absurd hc (not_or.mpr ⟨hstart, hwrite⟩)
      · intro heq
        cases heq
  constructor
  · rw [hreqs]
    exact h.created
  · rw [hpool]
    refine h.lane.pass hsignal (hnext.imp_right fun hn => ⟨?_, hn⟩) hfits
    rintro rfl
    exact hacts rfl
  · exact hwire
  · intro w' i c' hp
    obtain rfl : w' = w := by
      obtain ⟨-, -, t', u', hexec', -⟩ := hp
      rw [hpool] at hexec'
      exact (h.worker hexec').trans hw.symm
    exact (hposted i c').mp hp
  · intro i c' hb
    rw [← hw]
    exact (hposted i c').mpr hb
  · intro hc
    rw [hreqs] at hc
    rw [h.caller hc] at hacts
    exact absurd rfl hacts
  · intro st hc hnil
    rw [hreqs] at hc
    obtain ⟨events, htrace⟩ := htrace
    rw [htrace, sendPosts, List.filter_append] at hnil
    exact h.returned st hc (List.append_eq_nil_iff.mp hnil).1
  · intro hc
    rw [hreqs] at hc
    rw [(h.failed hc).1] at hacts
    exact absurd rfl hacts

/-- Once something was posted, every further post reaches the library.  A first post has shown that
    the request has a queue, and without one nothing would be posted at all. -/
theorem Line.reaches (hr : (transportSystem workerCount capacity).Reach ok s)
    (h : Line exact q r s w₀ nodes b) (hreq : SendReq s q writeInfo) (hb : b ≠ .stopped)
    (hplaces : b.places ≠ []) {op : UrmaOpcode} {k : Nat}
    (hk : op = .write → k < (s.reqs q).prep.chunks.length) :
    sendWr writeInfo (s.reqs q).prep.chunks op k ≠ none := by
  intro hnone
  obtain ⟨op', k', queue, wr, st, hmem⟩ := h.wire.posted hb hplaces
  obtain ⟨-, writeInfo', hinfo', hwr⟩ := posted_reach hr q op' k' queue wr st hmem
  rw [hreq.info] at hinfo'
  cases hinfo'
  obtain ⟨wr', hwr'⟩ := sendWr_isSome _ _ _ (sendQueue_of_sendWr hwr).1 hk
  rw [hnone] at hwr'
  cases hwr'

/-- A worker posts the notify of a task of the request.  If it is accepted and there is a next
    chunk, the same task goes on to write it; otherwise the send stops here. -/
theorem Line.notify (hr : (transportSystem workerCount capacity).Reach ok s)
    (h : Line exact q r s w₀ nodes b) (hreq : SendReq s q writeInfo)
    (hlen : nodes.length = (s.reqs q).prep.chunks.length)
    {w : Nat} {t : TaskNode ArgPtr} {u : BitVec 64} {status st : UrmaStatus} {s₁ : Transport}
    (hexec : (s.pool.workers w).exec = .running t r u) (hbody : s.body w = .start)
    (hpost : s.post q .sendImm t.ptr.index
      (sendWr writeInfo (s.reqs q).prep.chunks .sendImm t.ptr.index) status = (s₁, st)) :
    ∃ b', Line exact q r (s₁.setBody w (if st ≠ urmaSuccess ∨
      (s.reqs q).prep.chunks[t.ptr.index + 1]? = none then .status st else .write)) w₀ nodes b' := by
  obtain ⟨hpool, hreqs, hbody₁, -⟩ := post_same hpost
  have hacts := h.poised w t.ptr.index .start ⟨.inl rfl, hbody, t, u, hexec, rfl⟩
  obtain rfl : b = .notifying t.ptr.index := by
    cases b with
    | notifying i =>
      cases hacts
      rfl
    | writing => cases hacts
    | _ => cases hacts
  have hfits : t.ptr.index < nodes.length := h.lane.fits
  rcases post_wire hpost with ⟨hnone, -, -⟩ | ⟨queue, wr, hwr, htrace, hout⟩
  · exact absurd hnone (h.reaches hr hreq (by simp) (by simp [Baton.places]) (by simp))
  have htag : ownTag r wr.userCtx = false := by
    rw [Bool.eq_false_iff, Ne, ownTag_of_sendWr hreq hwr]
    simp
  have hwire := h.wire.postNotify queue st hfits htag
  rw [← htrace, ← hout] at hwire
  have hcond : st ≠ urmaSuccess ∨ (s.reqs q).prep.chunks[t.ptr.index + 1]? = none ↔
      ¬ (st = urmaSuccess ∧ t.ptr.index + 1 < nodes.length) := by
    rw [List.getElem?_eq_none_iff, ← hlen]
    constructor
    · rintro (hst | hn) ⟨hst', hn'⟩
      · exact hst hst'
      · omega
    · intro hno
      by_cases hst : st = urmaSuccess
      · right
        by_contra hn
        exact hno ⟨hst, by omega⟩
      · exact .inl hst
  by_cases hgo : st = urmaSuccess ∧ t.ptr.index + 1 < nodes.length
  · rw [notifyPosted, if_pos hgo] at hwire
    rw [if_neg (fun hx => hcond.mp hx hgo)]
    exact ⟨.writing t.ptr.index, h.worked hexec (by simp [Baton.acts]) ⟨hpool, hreqs⟩
      (by rw [Transport.setBody, hbody₁]) ⟨_, htrace⟩ hwire rfl (.inr rfl) hgo.2 (.inl ⟨rfl, rfl⟩)⟩
  · rw [notifyPosted, if_neg hgo] at hwire
    rw [if_pos (hcond.mpr hgo)]
    exact ⟨.stopped, h.worked hexec (by simp [Baton.acts]) ⟨hpool, hreqs⟩
      (by rw [Transport.setBody, hbody₁]) ⟨_, htrace⟩ hwire rfl (.inl rfl) trivial
      (.inr ⟨by simp, by simp, rfl⟩)⟩

/-- It posts the write of the next chunk.  From here on the baton is on the wire, and the worker is
    done with its posts. -/
theorem Line.write (hr : (transportSystem workerCount capacity).Reach ok s)
    (h : Line exact q r s w₀ nodes b) (hreq : SendReq s q writeInfo)
    (hid : (s.reqs q).prep.requestId = r) (hlen : nodes.length = (s.reqs q).prep.chunks.length)
    {w : Nat} {t : TaskNode ArgPtr} {u : BitVec 64} {status st : UrmaStatus} {s₁ : Transport}
    (hexec : (s.pool.workers w).exec = .running t r u) (hbody : s.body w = .write)
    (hpost : s.post q .write (t.ptr.index + 1)
      (sendWr writeInfo (s.reqs q).prep.chunks .write (t.ptr.index + 1)) status = (s₁, st)) :
    ∃ b', Line exact q r (s₁.setBody w (.status st)) w₀ nodes b' := by
  obtain ⟨hpool, hreqs, hbody₁, -⟩ := post_same hpost
  have hacts := h.poised w t.ptr.index .write ⟨.inr rfl, hbody, t, u, hexec, rfl⟩
  obtain rfl : b = .writing t.ptr.index := by
    cases b with
    | notifying => cases hacts
    | writing i =>
      cases hacts
      rfl
    | _ => cases hacts
  have hfits : t.ptr.index + 1 < nodes.length := h.lane.fits
  rcases post_wire hpost with ⟨hnone, -, -⟩ | ⟨queue, wr, hwr, htrace, hout⟩
  · refine absurd hnone (h.reaches hr hreq (by simp) ?_ fun _ => by omega)
    simp [Baton.places, schedule_succ]
  have hwire := h.wire.postWrite queue st (by simp) rfl rfl hfits
    ((ownTag_of_sendWr hreq hwr).mpr ⟨hid, rfl⟩)
  rw [← htrace, ← hout] at hwire
  have hbody' : (s₁.setBody w (.status st)).body = Function.update s.body w (.status st) := by
    rw [Transport.setBody, hbody₁]
  obtain hb | hb : writePosted (t.ptr.index + 1) wr.userCtx st = .flight (t.ptr.index + 1) wr.userCtx ∨
    writePosted (t.ptr.index + 1) wr.userCtx st = .stopped := ite_eq_or_eq ..
  · rw [hb] at hwire
    exact ⟨.flight (t.ptr.index + 1) wr.userCtx, h.worked hexec (by simp [Baton.acts]) ⟨hpool, hreqs⟩
      hbody' ⟨_, htrace⟩ hwire rfl (.inr rfl) hfits (.inr ⟨by simp, by simp, rfl⟩)⟩
  · rw [hb] at hwire
    exact ⟨.stopped, h.worked hexec (by simp [Baton.acts]) ⟨hpool, hreqs⟩ hbody' ⟨_, htrace⟩ hwire rfl
      (.inl rfl) trivial (.inr ⟨by simp, by simp, rfl⟩)⟩

/-- The completion of a write of the request is handled: the one in flight.  Only one tag of the
    request is on the wire, so the completion is that of the last write, and the wake-up it makes is
    the only one. -/
theorem Line.complete (h : Line exact q r s w₀ nodes b) {k : Nat} {cr : UrmaCr}
    {status : UrmaStatus} (hm : Move s (.completion k cr status) s') (hside : cr.sR = false)
    (hdue : cr.userCtx ∈ s.outstanding) (hown : ownTag r cr.userCtx = true)
    (hctx : exact → (∃ w, (OsTransport.lane r s.pool).queue w ≠ []) →
      (s.reqs q).caller ≠ .submitting → ∃ ctx, (OsTransport.lane r s.pool).ctx = some ctx) :
    ∃ b', Line exact q r s' w₀ nodes b' := by
  obtain ⟨hexecs, hbodies, -⟩ := hm.other (by simp)
  obtain ⟨i, x, rfl⟩ : ∃ i x, b = .flight i x := by
    have hmem : cr.userCtx ∈ s.outstanding.filter (ownTag r) := List.mem_filter.mpr ⟨hdue, hown⟩
    rw [h.wire.own] at hmem
    cases b with
    | flight i x => exact ⟨i, x, rfl⟩
    | _ => cases hmem
  have hfits : i < nodes.length := h.lane.fits
  obtain ⟨htag, hid⟩ := wakeUp_of_ownTag hside hown
  cases hm with
  | refuse ha | submit ha => cases ha.madeBy
  | ignored _ hcr =>
    rw [htag] at hcr
    cases hcr
  | @completion _ _ _ events out userData pool hidle hcr hpool hev hout =>
    obtain rfl : UserData.ofUserCtx cr.userCtx = userData := Option.some.inj (htag.symm.trans hcr)
    rw [hid] at hpool
    obtain ⟨reposts, rfl, hre⟩ := hev
    have hposts : ∀ e ∈ reposts, e.posts q = false := by
      intro e he
      obtain ⟨jetty, status, rfl⟩ := hre e he
      rfl
    -- the work request in flight is off the wire, and its wake-up is what is under way
    have hwire := h.wire.complete (c := .wake k) hside hdue hown hposts
    have hsent : sendPosts q (s.trace ++ .completion cr :: reposts) = sendPosts q s.trace := by
      refine sendPosts_quiet ?_
      intro e he
      rcases List.mem_cons.mp he with rfl | he
      · rfl
      · exact hposts e he
    have hdrop : out = s.outstanding.erase cr.userCtx := by
      rw [hout, hside]
      rfl
    rcases wake_lane hpool with ⟨hnone, hsame⟩ | hlook
    · -- the context is gone
      have hexact : ¬ exact := by
        intro hx
        have hqueue : (OsTransport.lane r s.pool).queue w₀ ≠ [] := by
          rcases h.lane.queue with hb | hq | ⟨hnx, -⟩
          · cases hb
          · rw [hq]
            intro hnil
            have hle := List.drop_eq_nil_iff.mp hnil
            change nodes.length ≤ i at hle
            omega
          · exact absurd hx hnx
        obtain ⟨ctx, hsome⟩ := hctx hx ⟨w₀, hqueue⟩ fun hc => by cases h.caller (.inl hc)
        rw [hnone] at hsome
        cases hsome
      refine ⟨.stopped, h.frame ?_ ?_ rfl (by simp) (fun _ => rfl) hsent
        (fun w i c => poised_congr (hexecs w) (congrFun hbodies w) i c) rfl id (fun _ => id) id⟩
      · show OnLane exact (OsTransport.lane r pool) w₀ nodes .stopped
        rw [hsame]
        exact h.lane.pass rfl (.inl rfl) trivial
      · show Wire q r nodes.length exact (s.trace ++ .completion cr :: reposts) out .stopped
        rw [hdrop]
        exact hwire.drop (by simp) (schedule_write_le hfits) rfl hexact
    · refine ⟨.waking i (.wake k), h.frame (h.lane.look hlook).1 ?_ rfl (by simp) (by simp) hsent
        (fun w i c => poised_congr (hexecs w) (congrFun hbodies w) i c) rfl id (fun _ => id) id⟩
      show Wire q r nodes.length exact (s.trace ++ .completion cr :: reposts) out (.waking i (.wake k))
      rw [hdrop]
      exact hwire

/-! ### Every other step

The baton stays, or drops. -/

/-- The step is a post for request `q`, or an attempt.  An attempt may be refused before it reaches
    the library, and then leaves no event. -/
inductive Attempts (s : Transport) (q : Nat) : Action → Prop
  | caller {alloc : Alloc} {statuses : List UrmaStatus} (hc : (s.reqs q).caller = .writing) :
      Attempts s q (.caller q alloc statuses)
  | worker {w : Nat} {ret : Int} {t : TaskNode ArgPtr} {r : ReqId} {u : BitVec 64}
      (hexec : (s.pool.workers w).exec = .running t r u) (hsync : t.ptr.sync = q)
      (hbody : s.body w = .start ∨ s.body w = .write) : Attempts s q (.worker w ret)

/-- A submission that has queued its tasks returns their ids. -/
theorem accepted_of_done (hinv : RequestInv q (s.view q)) (hne : (s.view q).attached ≠ [])
    (hc : (s.reqs q).caller = .submitting) {res : CallResult}
    (hdone : s.pool.calls (.caller q) = .done res) : ∃ ids, res = .taskIds ids := by
  have hphase : (s.view q).submit = (Call.done res : Call ArgPtr).submitPhase :=
    congrArg Call.submitPhase hdone
  obtain ⟨-, -, -, -, ⟨hnil, -⟩ | ⟨-, ⟨sub, hsub⟩ | hacc⟩⟩ := hinv.stage.of_submitting hc
  · exact absurd hnil hne
  · rw [hphase] at hsub
    cases res <;> cases hsub
  · rw [hphase] at hacc
    cases res with
    | taskIds ids => exact ⟨ids, rfl⟩
    | _ => cases hacc

/-- The call that makes a send goes on to its write and no further.  A step that attempts no write
    brings it neither to success nor to failure. -/
theorem caller_step {a : Action} (hm : Move s a s') (hfresh : (s.reqs q).caller ≠ .fresh)
    (haccepted : (s.reqs q).caller = .submitting → ∀ res,
      s.pool.calls (.caller q) = .done res → ∃ ids, res = .taskIds ids)
    (hinfo : (s.reqs q).prep.urmaInfo = .write writeInfo) (hno : ¬ Attempts s q a) :
    ((s'.reqs q).caller = .submitting ∨ (s'.reqs q).caller = .writing →
      (s.reqs q).caller = .submitting ∨ (s.reqs q).caller = .writing) ∧
    (∀ st, (s'.reqs q).caller = .returned true st → (s.reqs q).caller = .returned true st) ∧
    ((s'.reqs q).caller.Fails → (s.reqs q).caller.Fails) := by
  by_cases ha : a.madeBy = some q
  · have hself : ∀ {s₁ : Transport} {x : Request}, (s₁.setReq q x).reqs q = x :=
      Function.update_self ..
    cases hm with
    | refuse hcall hc | submit hcall hc =>
      obtain rfl := Option.some.inj (hcall.madeBy.symm.trans ha)
      exact absurd hc hfresh
    | callerAdvance => exact ⟨id, fun _ => id, id⟩
    | registerSend hc =>
      cases ha
      rw [hself]
      refine ⟨fun _ => .inl hc, ?_, ?_⟩
      · intro st h
        cases h
      · rintro ⟨st, h | h⟩ <;> cases h
    | registerRecv hc hdone hrecv | prefill hc hrecv | prefillFailed hc hrecv =>
      cases ha
      rw [hinfo] at hrecv
      cases hrecv
    | unregistered hc hdone hres =>
      cases ha
      obtain ⟨ids, rfl⟩ := haccepted hc _ hdone
      exact absurd rfl (hres ids)
    | fail hc =>
      cases ha
      rw [hself]
      refine ⟨?_, ?_, fun _ => ⟨_, .inl hc⟩⟩
      · rintro (h | h) <;> cases h
      · intro st h
        cases h
    | firstWrite hc =>
      cases ha
      exact absurd (.caller hc) hno
    | _ => cases ha
  · have hframe := congrArg (fun x => x.2.1) (hm.frame ha)
    change (s'.reqs q).caller = (s.reqs q).caller at hframe
    rw [hframe]
    exact ⟨id, fun _ => id, id⟩

/-- A worker past its posts does not come back to them in the same task. -/
theorem Move.past {w : Nat} {ret : Int} (hm : Move s (.worker w ret) s') {t : TaskNode ArgPtr}
    {u : BitVec 64} (hexec : (s.pool.workers w).exec = .running t r u)
    (hbody : ¬ (s.body w = .start ∨ s.body w = .write)) : ¬ (s'.body w = .start ∨ s'.body w = .write) := by
  have hself : ∀ {s₁ : Transport} {c : Body}, (s₁.setBody w c).body w = c := Function.update_self ..
  cases hm with
  | refuse ha | submit ha => cases ha.madeBy
  | pop hloop =>
    rw [hexec] at hloop
    cases hloop
  | account hret =>
    rw [hexec] at hret
    cases hret
  | notify _ hb | callback _ hb | noCallback _ hb => exact absurd (.inl hb) hbody
  | write _ hb => exact absurd (.inr hb) hbody
  | status | workerFree =>
    rw [hself]
    simp
  | mark =>
    rw [hself]
    split <;> simp
  | finish => exact hbody

/-- What keeps a step from disturbing the request.  It is asked for only where the baton must not
    drop. -/
structure Calm (s : Transport) (q : Nat) (r : ReqId) (l : LaneLabel Proc ArgPtr) : Prop where
  cancels : ∀ c w, (OsTransport.lane r s.pool).calls c ≠ .cancelling w
  drops : ∀ c, l ≠ .dropWake c
  ctx : (∃ w, (OsTransport.lane r s.pool).queue w ≠ []) → (s.reqs q).caller ≠ .submitting →
    ∃ ctx, (OsTransport.lane r s.pool).ctx = some ctx

/-- The lane shows who executes a task of the id. -/
theorem running_of_lane {pool : PoolSys Proc ArgPtr} {w : Nat} {t : TaskNode ArgPtr} {u : BitVec 64} :
    (lane r pool).exec w = .running t r u ↔ (pool.workers w).exec = .running t r u := by
  rw [lane_exec]
  cases (pool.workers w).exec with
  | running task reqId userData =>
    simp only [laneExec, ite_eq_iff, Exec.running.injEq, reduceCtorEq, and_false, or_false]
    exact ⟨fun h => h.2, fun h => ⟨h.2.1, h⟩⟩
  | _ => simp [laneExec, ite_eq_iff]

section Step

variable {a : Action} {l : LaneLabel Proc ArgPtr}

/-- The tasks in the queue of a send are its tasks in their order, and answer any wake-up.  They
    have no match key, so whatever a wake-up carries, it takes the head of the queue. -/
theorem Line.tasks (h : Line exact q r s w₀ nodes b) (hreq : SendReq s q writeInfo)
    (hid : (s.reqs q).prep.requestId = r) :
    nodes.length = (s.reqs q).prep.chunks.length ∧
    (∀ t ∈ nodes, ∀ u, answersWakeUp r u t = true) ∧
    ∀ (i : Nat) (t : TaskNode ArgPtr), nodes[i]? = some t → t.ptr = ⟨q, i⟩ := by
  refine ⟨?_, ?_, ?_⟩
  · rw [← h.created.length_eq, hreq.wellFormed.tasks_length]
  · intro t ht u
    obtain ⟨src, hsrc, taskId, rfl⟩ := created_of_mem h.created ht
    have hkey := hreq.keyless src hsrc
    simp [answersWakeUp, createBatchNode, hkey, hreq.wellFormed.submission_requestId, hid]
  · intro i t ht
    have hptr : (nodes.map TaskNode.ptr)[i]? = some t.ptr := by
      rw [List.getElem?_map, ht]
      rfl
    rw [ptr_of_created h.created, hreq.wellFormed.taskArgs, List.getElem?_map] at hptr
    obtain ⟨j, hj, heq⟩ := Option.map_eq_some_iff.mp hptr
    obtain ⟨hlt, hj⟩ := List.getElem?_eq_some_iff.mp hj
    rw [List.getElem_range] at hj
    rw [← heq, ← hj]

/-- A post of the request, or an attempt at one. -/
theorem Line.attempt (hr : (transportSystem workerCount capacity).Reach ok s)
    (h : Line exact q r s w₀ nodes b) (hreq : SendReq s q writeInfo) (hid : s.OwnsId q r)
    (hm : Move s a s') (ha : Attempts s q a) : ∃ b', Line exact q r s' w₀ nodes b' := by
  have hpid : (s.reqs q).prep.requestId = r := (hid q hreq.wellFormed.tasks_ne_nil).mpr rfl
  have hlen := (h.tasks hreq hpid).1
  cases ha with
  | caller hc =>
    cases hm with
    | refuse hcall | submit hcall => cases hcall
    | callerAdvance hc' | registerSend hc' | registerRecv hc'
    | unregistered hc' | prefill hc' | prefillFailed hc' | fail hc' =>
      rw [hc] at hc'
      cases hc'
    | firstWrite _ hinfo hpost =>
      rw [hreq.info] at hinfo
      cases hinfo
      exact h.firstWrite hreq hpid hlen hc hpost
  | @worker w ret t r' u hexec hsync hbody =>
    obtain rfl : r' = r := (sync_of_running hr hid hexec).mp hsync
    cases hm with
    | refuse hcall | submit hcall => cases hcall.madeBy
    | pop hexec' | account hexec' =>
      rw [hexec] at hexec'
      cases hexec'
    | notify hexec' hbody' harg hpost =>
      rw [hexec] at hexec'
      cases hexec'
      change (s.reqs t.ptr.sync).prep.args[t.ptr.index]? = _ at harg
      change s.post t.ptr.sync .sendImm t.ptr.index _ _ = _ at hpost
      rw [hsync] at harg hpost
      cases hreq.args _ _ harg
      exact h.notify hr hreq hlen hexec hbody' hpost
    | write hexec' hbody' harg hpost =>
      rw [hexec] at hexec'
      cases hexec'
      change (s.reqs t.ptr.sync).prep.args[t.ptr.index]? = _ at harg
      change s.post t.ptr.sync .write (t.ptr.index + 1) _ _ = _ at hpost
      rw [hsync] at harg hpost
      cases hreq.args _ _ harg
      exact h.write hr hreq hpid hlen hexec hbody' hpost
    | callback hexec' _ harg | noCallback hexec' _ harg =>
      rw [hexec] at hexec'
      cases hexec'
      change (s.reqs t.ptr.sync).prep.args[t.ptr.index]? = _ at harg
      rw [hsync] at harg
      cases hreq.args _ _ harg
    | status _ hb | mark _ hb | workerFree _ hb | finish _ hb =>
      rw [hb] at hbody
      rcases hbody with hbody | hbody <;> cases hbody

/-- The worker takes the next task on the wake-up of its write.  With the task it takes the baton,
    and keeps it until it has posted. -/
theorem Line.serve (h : Line exact q r s w₀ nodes b) (hreq : SendReq s q writeInfo)
    (hid : (s.reqs q).prep.requestId = r) (hm : Move s a s') {i : Nat} {t : TaskNode ArgPtr}
    {u : BitVec 64} (hb : b = .accepted i) (hsees : SeesLane r s a (.take w₀ t u) s')
    (ht : nodes[i]? = some t)
    (hexec : (OsTransport.lane r s'.pool).exec
      = Function.update (OsTransport.lane r s.pool).exec w₀ (.running t r u))
    (hlane : OnLane exact (OsTransport.lane r s'.pool) w₀ nodes (.notifying i)) :
    Line exact q r s' w₀ nodes (.notifying i) := by
  subst hb
  have hptr := (h.tasks hreq hid).2.2 i t ht
  obtain ⟨-, ⟨-, hl⟩ | ⟨pa, hpa, -, hpool, rfl⟩⟩ := hsees
  · cases hl
  obtain ⟨ret, rfl⟩ := hpa
  obtain ⟨hloop, -⟩ := pop_cases hpool
  have hrun : (s'.pool.workers w₀).exec = .running t r u := by
    rw [← running_of_lane, hexec, Function.update_self]
  cases hm with
  | refuse ha | submit ha => cases ha
  | @pop _ _ pool hexec' hpool' =>
    have hstart : ((s.setPool pool).setBody w₀ .start).body w₀ = .start := Function.update_self ..
    have hposed : ∀ j c, Transport.Poised ((s.setPool pool).setBody w₀ .start) r w₀ j c ↔
        (i, Body.start) = (j, c) := by
      intro j c
      constructor
      · rintro ⟨-, hbody, t', u', hexec', rfl⟩
        rw [hrun] at hexec'
        cases hexec'
        rw [hptr, ← hbody, hstart]
      · rintro ⟨⟩
        exact ⟨.inl rfl, hstart, t, u, hrun, by rw [hptr]⟩
    constructor
    · exact h.created
    · exact hlane
    · exact h.wire.pass (by simp) (by simp) rfl rfl (by simp) fun _ h => h
    · intro w j c hp
      obtain rfl : w = w₀ := by
        obtain ⟨-, -, t', u', hexec', -⟩ := hp
        exact hlane.at_.worker_of_exec (by rw [running_of_lane.mpr hexec']; simp)
      exact congrArg some ((hposed j c).mp hp)
    · intro j c hb
      exact (hposed j c).mpr (Option.some.inj hb)
    · intro hc
      cases h.caller hc
    · exact h.returned
    · intro hc
      cases (h.failed hc).1
  | notify hexec' | write hexec' | callback hexec' | noCallback hexec' | status hexec' | mark hexec'
  | workerFree hexec' | finish hexec' | account hexec' =>
    rw [hloop] at hexec'
    cases hexec'

/-- A step that posts nothing for the request.  Other requests may post and complete at will: their
    tags are not of the request, so its share of the wire stays. -/
theorem Line.quiet (hr' : (transportSystem workerCount capacity).Reach ok s')
    (hid' : s'.OwnsId q r) (h : Line exact q r s w₀ nodes b) (hm : Move s a s')
    (hno : ¬ Attempts s q a)
    (hforeign : ∀ k cr status, a = .completion k cr status → cr.sR = false →
      ownTag r cr.userCtx = false) :
    Wire q r nodes.length exact s'.trace s'.outstanding b ∧
      sendPosts q s'.trace = sendPosts q s.trace := by
  suffices hquiet : ∃ events, s'.trace = s.trace ++ events ∧ (∀ e ∈ events, e.posts q = false) ∧
      s'.outstanding.filter (ownTag r) = s.outstanding.filter (ownTag r) by
    obtain ⟨events, htrace, hev, hout⟩ := hquiet
    rw [htrace]
    exact ⟨h.wire.frame hev hout, sendPosts_quiet hev⟩
  cases hm.wire with
  | quiet htrace hev hout => exact ⟨_, htrace, fun e he => hev e he q, by rw [hout]⟩
  | @post q' op k queue wr st hcause htrace hout =>
    have hne : q' ≠ q := by
      rintro rfl
      cases hcause with
      | first hc => exact hno (.caller hc)
      | notify hexec hbody => exact hno (.worker hexec rfl (.inl hbody))
      | write hexec hbody => exact hno (.worker hexec rfl (.inr hbody))
    have htag : ownTag r wr.userCtx = false := by
      have hmem : .post q' op k queue wr st ∈ s'.trace := by
        rw [htrace]
        exact List.mem_append_right _ (List.mem_singleton_self _)
      rw [Bool.eq_false_iff, Ne, ownTag_of_posted hr' hid' hmem]
      exact fun hx => hne hx.1
    refine ⟨_, htrace, ?_, ?_⟩
    · intro e he
      rw [List.mem_singleton.mp he]
      exact beq_eq_false_iff_ne.mpr hne
    · rw [hout]
      split
      · rw [List.filter_append, List.filter_cons_of_neg (by simp [htag]), List.filter_nil,
          List.append_nil]
      · rfl
  | @handled k cr status events ha htrace hev hout =>
    refine ⟨_, htrace, ?_, ?_⟩
    · intro e he
      rcases List.mem_cons.mp he with rfl | he
      · rfl
      · exact hev e he q
    · rw [hout]
      split
      · rfl
      · rename_i hside
        have hno := hforeign k cr status ha (Bool.eq_false_iff.mpr hside)
        rw [← List.erase_filter, List.erase_of_not_mem]
        intro hmem
        rw [(List.mem_filter.mp hmem).2] at hno
        cases hno

/-- **Every step of any thread passes the baton on or drops it.**  A step posts for the request, or
    handles the completion of its write, or makes a worker take its next task; any other leaves the
    baton where it is or drops it. -/
theorem line_step (hr : (transportSystem workerCount capacity).Reach ok s)
    (hr' : (transportSystem workerCount capacity).Reach ok s') (hid : s.OwnsId q r)
    (hid' : s'.OwnsId q r) (hreq : SendReq s q writeInfo) (hs : s.step a = some s')
    (h : Line exact q r s w₀ nodes b) (hguard : SendGuard r s a) (hsees : SeesLane r s a l s')
    (hne : (s.view q).attached ≠ []) (hatt : ∀ c w nodes, l ≠ .attach c w nodes)
    (hcalm : exact → Calm s q r l) : ∃ b', Line exact q r s' w₀ nodes b' := by
  have hm := Transport.move_of_step hs
  have hmade := hreq.wellFormed.tasks_ne_nil
  have hpid : (s.reqs q).prep.requestId = r := (hid q hmade).mpr rfl
  by_cases ha : Attempts s q a
  · exact h.attempt hr hreq hid hm ha
  by_cases hown : ∃ k cr status, a = .completion k cr status ∧ cr.sR = false ∧
    ownTag r cr.userCtx = true
  · obtain ⟨k, cr, status, rfl, hside, hown⟩ := hown
    exact h.complete hm hside (hguard.2 hside) hown fun hx => (hcalm hx).ctx
  have hlook : ∀ c u, l ≠ .lookWake c u := by
    rintro c u rfl
    exact hown (look_own hsees hguard)
  have hforeign : ∀ k cr status, a = .completion k cr status → cr.sR = false →
      ownTag r cr.userCtx = false := by
    intro k cr status ha hside
    rw [Bool.eq_false_iff]
    exact fun hx => hown ⟨k, cr, status, ha, hside, hx⟩
  rcases h.lane.step hsees.1 hatt hlook (fun hx => ⟨(hcalm hx).cancels, (hcalm hx).drops⟩)
      (h.tasks hreq hpid).2.1 with
    ⟨b', hlane', hpass, hback⟩ | ⟨i, t, u, hb, rfl, ht, -, hexec, hlane'⟩
  · -- no worker takes up a task, and a worker about to post stays
    have hpoised : ∀ w i c, s'.Poised r w i c ↔ s.Poised r w i c := by
      intro w i c
      by_cases hw : ∃ ret, a = .worker w ret
      · obtain ⟨ret, rfl⟩ := hw
        constructor
        · rintro ⟨hc, hbody, t, u, hexec, -⟩
          have hrun := running_of_lane.mp (hback w t u (running_of_lane.mpr hexec))
          have hpast := hm.past hrun fun hx => ha (.worker hrun ((sync_of_running hr hid hrun).mpr rfl) hx)
          rw [hbody] at hpast
          exact absurd hc hpast
        · rintro ⟨hc, hbody, t, u, hexec, -⟩
          rw [← hbody] at hc
          exact absurd (.worker hexec ((sync_of_running hr hid hexec).mpr rfl) hc) ha
      · have hsame : (s'.pool.workers w).exec = (s.pool.workers w).exec ∧ s'.body w = s.body w := by
          by_cases hworker : ∃ w' ret, a = .worker w' ret
          · obtain ⟨w', ret, rfl⟩ := hworker
            exact hm.elsewhere fun heq => hw ⟨ret, by rw [heq]⟩
          · obtain ⟨hexecs, hbodies, -⟩ := hm.other fun w' ret hx => hworker ⟨w', ret, hx⟩
            exact ⟨hexecs w, congrFun hbodies w⟩
        exact poised_congr hsame.1 hsame.2 i c
    have hfresh : (s.reqs q).caller ≠ .fresh := fun hf => hmade ((nodes_reach hr).fresh q hf)
    obtain ⟨hcaller, hreturned, hfailed⟩ := caller_step hm hfresh
      (fun hc res hdone => accepted_of_done (request_inv hr q) hne hc hdone) hreq.info ha
    obtain ⟨hwire, hposts⟩ := h.quiet hr' hid' hm ha hforeign
    exact ⟨b', h.frame hlane' (hpass.wire h.lane.fits hwire) hpass.acts hpass.first.mpr hpass.stopped
      hposts hpoised (keepsMade_step hr hs q hmade) hcaller hreturned hfailed⟩
  · exact ⟨_, h.serve hreq hpid hm hb hsees ht hexec hlane'⟩

end Step

/-! ### From the first task queued

The line begins with the attach, before the first write is posted. -/

/-- The wire of a send that has not posted. -/
theorem Wire.first {trace : List Event} {out : List (BitVec 64)} {n : Nat}
    (hun : ∀ e ∈ trace, e.posts q = false) (hown : out.filter (ownTag r) = []) :
    Wire q r n exact trace out .first := by
  have hnil : sendPosts q trace = [] := by
    refine List.filter_eq_nil_iff.mpr ?_
    intro e he
    simp [hun e he]
  constructor
  · intro _
    rw [hnil]
    exact ⟨rfl, by simp⟩
  · intro hb
    cases hb
  · exact hown
  · intro i x hb
    cases hb
  · intro i hb
    cases hb
  · intro i queue wr st hpost
    have hno := hun _ hpost
    simp [Event.posts] at hno

/-- The lane of a send that has just been submitted. -/
theorem OnLane.attached {L : Lane Proc ArgPtr} {c : Proc} (hL : L.Untouched) :
    OnLane exact (L.attached c w₀ nodes) w₀ nodes .first := by
  refine ⟨hL.at_attached _ _ _, ⟨?_, hL.wakes w₀⟩, .inr (.inl ?_), trivial⟩
  · intro c' u w hx
    by_cases hne : c' = c
    · rw [hne, show (L.attached c w₀ nodes).calls c = _ from Function.update_self ..] at hx
      cases hx
    · rw [show (L.attached c w₀ nodes).calls c' = _ from Function.update_of_ne hne ..] at hx
      rcases hL.calls c' with hidle | hsub
      · rw [hidle] at hx
        cases hx
      · rw [hsub] at hx
        cases hx
  · show Function.update L.queue w₀ (L.queue w₀ ++ nodes) w₀ = _
    rw [Function.update_self, hL.queue w₀]
    rfl

/-- The step that queues the tasks of a send posts nothing for it.  Its call is still submitting,
    and posts only after that. -/
theorem unposted_attach (hr : (transportSystem workerCount capacity).Reach ok s) {a : Action}
    (hs : s.step a = some s') (hc : (s.reqs q).caller = .submitting) {alloc : Alloc}
    (hpa : Calls s a (.advance (.caller q) alloc))
    (hnone : (s.view q).attached = []) : ∀ e ∈ s'.trace, e.posts q = false := by
  have hold := unposted_reach hr hnone
  intro e he
  cases (Transport.move_of_step hs).wire with
  | quiet htrace hev =>
    rw [htrace] at he
    exact (List.mem_append.mp he).elim (hold e) fun he => hev e he q
  | @post q' op k queue wr st hcause htrace =>
    cases hcause with
    | first hw =>
      cases hpa
      rw [hc] at hw
      cases hw
    | notify | write => cases hpa
  | handled ha =>
    cases ha
    cases hpa

/-- The submission has queued the tasks, and nothing is posted.  Here the invariant begins, with the
    baton in the hands of the call. -/
theorem Line.start (hr : (transportSystem workerCount capacity).Reach ok s)
    (hr' : (transportSystem workerCount capacity).Reach ok s') (hid' : s'.OwnsId q r) {a : Action}
    (hs : s.step a = some s') (hL : (OsTransport.lane r s.pool).Untouched)
    (hsees : SeesLane r s a (.attach (.caller q) w₀ nodes) s')
    (hlane : OsTransport.lane r s'.pool = (OsTransport.lane r s.pool).attached (.caller q) w₀ nodes)
    (hnodes : List.Forall₂ (s.reqs q).prep.submission.Created (s.reqs q).prep.tasks nodes) :
    Line exact q r s' w₀ nodes .first := by
  have hid := OwnsId.back hr hs hid'
  obtain ⟨-, ⟨-, hl⟩ | ⟨pa, hpa, -, hpool, hexp⟩⟩ := hsees
  · cases hl
  obtain ⟨-, hnone, hmade, -⟩ := own_attach hr hid hexp
  obtain ⟨sub, alloc, rfl, hcall, -⟩ := hexp
  obtain ⟨q', hq', hc, -⟩ := built_of_attaching (PoolSys.carries_reach (pool_reach hr))
    (roles_reach (pool_reach hr)) (request_inv hr) hcall
  cases hq'
  have hrec : ∃ sub, (s'.view q).submit = .attached sub := by
    have hself : (OsTransport.lane r s'.pool).calls (.caller q) = .recording w₀ nodes.length := by
      rw [hlane]
      exact Function.update_self ..
    exact submit_of_recording hr' hself
  have hc' : (s'.reqs q).caller = .submitting := by
    by_contra hne
    obtain ⟨sub, hsub⟩ := hrec
    rw [(request_inv hr' q).silent.submit hne] at hsub
    cases hsub
  have hexec : ∀ w t u, (s'.pool.workers w).exec ≠ .running t r u := by
    intro w t u hx
    have hloop : (OsTransport.lane r s'.pool).exec w = .loop := by
      rw [hlane]
      exact hL.exec w
    rw [running_of_lane.mpr hx] at hloop
    cases hloop
  have hunposted := unposted_attach hr hs hc hpa hnone
  constructor
  · rw [keepsMade_step hr hs q hmade]
    exact hnodes
  · rw [hlane]
    exact .attached hL
  · -- a work request of the send that is due was posted for it
    refine .first hunposted (List.filter_eq_nil_iff.mpr ?_)
    intro x hx hown
    obtain ⟨q', op, k, queue, wr, hpost, rfl⟩ := due_reach hr' x hx
    obtain ⟨rfl, -⟩ := (ownTag_of_posted hr' hid' hpost).mp hown
    have hno := hunposted _ hpost
    simp [Event.posts] at hno
  · rintro w i c ⟨-, -, t, u, hx, -⟩
    exact absurd hx (hexec w t u)
  · intro i c hb
    cases hb
  · exact fun _ => rfl
  · intro st hx
    rw [hc'] at hx
    cases hx
  · rintro ⟨st, hx⟩
    rw [hc'] at hx
    rcases hx with hx | hx <;> cases hx

/-- Nobody disturbs the request: no cancel of its id, and no allocation fails in its call or in a
    wake-up. -/
def Untroubled (q : Nat) (r : ReqId) (s : Transport) (a : Action) : Prop :=
  LeftAlone q r s a ∧ ∀ k alloc, a = .wake k alloc → alloc = .ok

/-- Wake-ups are made by the threads that handle completions. -/
theorem waker_reach {pool : PoolSys Proc ArgPtr}
    (h : (poolSystem Proc ArgPtr workerCount).Reach (fun _ pa => MayCall pa) pool) :
    ∀ c r u w, pool.calls c = .waking r u w → ∃ k, c = .wake k := by
  refine h.invariant (I := fun pool => ∀ c r u w, pool.calls c = .waking r u w → ∃ k, c = .wake k) ?_ ?_
  · rintro s rfl c r u w hc
    cases hc
  · intro s pa s' _ hI hpa hs c r u w hc
    rcases waking_effect hs hc with hold | rfl
    · exact hI c r u w hold
    · exact hpa

/-- In an untroubled run every step of the request is calm.  The course of its lane
    (`OsTransport.Solo`) says that no cancel is on its way and that waiting tasks have a context. -/
theorem calm_step {a : Action} {l : LaneLabel Proc ArgPtr}
    (hok : ∀ s a, ok s a → Untroubled q r s a)
    (hr : (transportSystem workerCount capacity).Reach ok s) (hid : s.OwnsId q r) (ha : ok s a)
    (hne : (s.view q).attached ≠ []) (hsees : SeesLane r s a l s') : Calm s q r l := by
  have hpool := pool_reach hr
  rcases course_reach (fun s a h => (hok s a h).1) hr hid with ⟨hnil, -⟩ | ⟨-, hone, w₀, hat, hcourse⟩
  · exact absurd hnil hne
  refine ⟨fun c w => (hcourse.not_cancels c).1 w, ?_, ?_⟩
  · rintro c rfl
    obtain ⟨hstep, ⟨-, hl⟩ | ⟨pa, -, halloc, -, alloc, rfl, hfail⟩⟩ := hsees
    · cases hl
    generalize OsTransport.lane r s'.pool = L' at hstep
    cases hstep with
    | dropWake hc =>
      obtain ⟨k, rfl⟩ := waker_reach hpool c _ _ _ (laneCall_waking.mp hc)
      exact hfail ((hok s a ha).2 k alloc halloc)
  · rintro ⟨w, hqueue⟩ hc
    refine hcourse.ctx_some hat hqueue ?_
    intro c w k hrec
    -- the only submission is that of the request itself
    obtain rfl := hone c w k hrec
    obtain ⟨sub, hphase⟩ := submit_of_recording hr hrec
    rw [(request_inv hr q).silent.submit hc] at hphase
    cases hphase

/-- **A send is in line** from the moment its tasks are queued.  Before that nothing of the request
    is in the pool, and nothing is posted. -/
theorem line_reach (exact : Prop) (hguard : ∀ s a, ok s a → SendGuard r s a)
    (hexact : exact → ∀ s a, ok s a → Untroubled q r s a)
    (h : (transportSystem workerCount capacity).Reach ok s) (hid : s.OwnsId q r)
    (hinfo : (s.reqs q).prep.urmaInfo = .write writeInfo) :
    (s.view q).attached = [] ∨
      (s.view q).attached ≠ [] ∧ ∃ w₀ nodes b, Line exact q r s w₀ nodes b := by
  let J : Transport → Prop := fun s => ∀ writeInfo, (s.reqs q).prep.urmaInfo = .write writeInfo →
    ∃ w₀ nodes b, Line exact q r s w₀ nodes b
  have hreach := own_reach (J := J) ?_ ?_ h hid
  · exact hreach.imp And.left (And.imp_right fun hJ => hJ writeInfo hinfo)
  · intro s a s' w nodes hr hid' ha hs hL hsees hlane hnodes _ _
    exact ⟨w, nodes, .first, .start hr (.step hr ha hs) hid' hs hL hsees hlane hnodes⟩
  · intro s a s' l hr hid' ha hs hne hJ hsees hatt writeInfo hinfo
    have hmade : (s.reqs q).prep.tasks ≠ [] :=
      ((request_inv hr q).stage.attached_ne_nil hne).1.tasks_ne_nil
    have hid := OwnsId.back hr hs hid'
    rw [keepsMade_step hr hs q hmade] at hinfo
    obtain ⟨w₀, nodes, b, hline⟩ := hJ writeInfo hinfo
    obtain ⟨b', hline'⟩ := line_step hr (.step hr ha hs) hid hid' (sendReq_of_made hr hmade hinfo) hs
      hline (hguard s a ha) hsees hne hatt fun hx => calm_step (hexact hx) hr hid ha hne hsees
    exact ⟨w₀, nodes, b', hline'⟩

end Line

end OsTransport
