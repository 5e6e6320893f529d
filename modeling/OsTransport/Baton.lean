/-
  What is under way for a send.

  A send posts the write of chunk 0; then each of its tasks announces a chunk and writes the next,
  and the completion of a write wakes the worker that executes the next task.  Nothing in the code
  holds this together but the fact that only one of these things is under way at a time.  `Baton`
  names where that one is.  Three views of a state fit it: the lane of the request, which sees the
  baton while it is a wake-up (`Signal`, `OnLane`); the history of posts and completions (`Wire`);
  and, in `SendPipeline`, the worker inside a task.

  What moves it:

  * a post or a completion moves it on the wire (`Wire.post`, `Wire.complete`, `Wire.announce`);
    every other step leaves the wire alone (`Wire.frame`);
  * an accepted or a served wake-up moves it in the lane (`OnLane.step`); the wake-up may get lost on
    the way, and then the baton is stopped for good (`Loses`);
  * `Passes` lists these moves from one holder to the next.  A new wake-up is made only from a
    completion (`OnLane.look`), of which there is at most one, so there are never two wake-ups.

  What has been posted is a prefix of the `schedule` wherever the baton is (`Fits.places`), which is
  how the order of the posts is known without looking at the workers.
-/
import OsTransport.Isolation
import OsTransport.Solo

namespace OsTransport

open Transition

/-! ## One wake-up at a time

A wake-up of the id is made, accepted and served, and only then is there another. -/

/-- Where the only wake-up of a lane is.  A send has at most one completion due, so it has at most
    one wake-up under way. -/
inductive Signal (κ : Type*)
  | none
  | waking (c : κ)
  | accepted

section Signal

variable {κ α : Type*} {r : ReqId} {L L' : Lane κ α} {l : LaneLabel κ α} {w₀ : Nat} {σ : Signal κ}

/-- The lane has this wake-up and no other. -/
def Lane.Signals (L : Lane κ α) (w₀ : Nat) : Signal κ → Prop
  | .none => (∀ c u w, L.calls c ≠ .waking u w) ∧ L.wakes w₀ = []
  | .waking c => (∃ u, L.calls c = .waking u w₀) ∧
      (∀ c' u w, L.calls c' = .waking u w → c' = c) ∧ L.wakes w₀ = []
  | .accepted => (∀ c u w, L.calls c ≠ .waking u w) ∧ ∃ u, L.wakes w₀ = [u]

/-- The queue stays or a cancel empties it, and no task is taken up. -/
structure Lane.Keeps (r : ReqId) (L : Lane κ α) (l : LaneLabel κ α) (L' : Lane κ α) (w₀ : Nat) :
    Prop where
  queue : L'.queue w₀ = L.queue w₀ ∨ (∃ c, l = .cancelQueue c) ∧ L'.queue w₀ = []
  exec : ∀ w t u, L'.exec w = .running t r u → L.exec w = .running t r u

/-- Why a wake-up is lost.  No memory for it, a cancel that removes it, or no task left for it to
    take. -/
inductive Loses (r : ReqId) (L : Lane κ α) (w₀ : Nat) : LaneLabel κ α → Prop
  | drop (c : κ) : Loses r L w₀ (.dropWake c)
  | cancel (c : κ) : Loses r L w₀ (.cancelQueue c)
  | miss {u : BitVec 64} (hw : u ∈ L.wakes w₀)
      (hpop : workerQueuePopByReqAndUserData (L.queue w₀) r u = none) : Loses r L w₀ (.miss w₀ u)

/-- What a step does to the only wake-up: nothing, or it is accepted, lost, or served. -/
inductive SignalStep (r : ReqId) (L : Lane κ α) (w₀ : Nat) : LaneLabel κ α → Lane κ α →
    Signal κ → Signal κ → Prop
  | same {l : LaneLabel κ α} {L' : Lane κ α} {σ : Signal κ} (h : L.Keeps r l L' w₀) :
      SignalStep r L w₀ l L' σ σ
  | accept {c : κ} {L' : Lane κ α} (h : L.Keeps r (.pushWake c) L' w₀) :
      SignalStep r L w₀ (.pushWake c) L' (.waking c) .accepted
  | lose {l : LaneLabel κ α} {L' : Lane κ α} {σ : Signal κ} (h : L.Keeps r l L' w₀)
      (hl : Loses r L w₀ l) : SignalStep r L w₀ l L' σ .none
  | serve {t : TaskNode α} {u : BitVec 64} {L' : Lane κ α} (hloop : L.exec w₀ = .loop)
      (hpop : workerQueuePopByReqAndUserData (L.queue w₀) r u = some (t, L'.queue w₀))
      (hexec : L'.exec = Function.update L.exec w₀ (.running t r u)) :
      SignalStep r L w₀ (.take w₀ t u) L' .accepted .none

variable [DecidableEq κ]

/-- Moving a call that is no wake-up and becomes none. -/
theorem Lane.Signals.setCall (h : L.Signals w₀ σ) {c : κ} {pc : LaneCall}
    (hc : ∀ u w, L.calls c ≠ .waking u w) (hpc : ∀ u w, pc ≠ .waking u w) {L' : Lane κ α}
    (hcalls : L'.calls = Function.update L.calls c pc) (hwakes : L'.wakes w₀ = L.wakes w₀) :
    L'.Signals w₀ σ := by
  have hiff : ∀ c' u w, L'.calls c' = .waking u w ↔ L.calls c' = .waking u w := by
    intro c' u w
    rw [hcalls]
    by_cases hne : c' = c
    · rw [hne, Function.update_self]
      exact ⟨fun h => absurd h (hpc u w), fun h => absurd h (hc u w)⟩
    · rw [Function.update_of_ne hne]
  cases σ with
  | none => exact ⟨fun c' u w hx => h.1 c' u w ((hiff c' u w).mp hx), hwakes.trans h.2⟩
  | waking c₀ =>
    obtain ⟨⟨u, hu⟩, hone, hnil⟩ := h
    exact ⟨⟨u, (hiff c₀ u w₀).mpr hu⟩, fun c' u w hx => hone c' u w ((hiff c' u w).mp hx),
      hwakes.trans hnil⟩
  | accepted =>
    obtain ⟨hno, u, hu⟩ := h
    exact ⟨fun c' u w hx => hno c' u w ((hiff c' u w).mp hx), u, hwakes.trans hu⟩

/-- The wake-up that leaves its call is the only one. -/
theorem Lane.Signals.leave (h : L.Signals w₀ σ) (hat : L.At w₀) {c : κ} {u : BitVec 64} {w : Nat}
    (hc : L.calls c = .waking u w) : w = w₀ ∧ σ = .waking c ∧ L.wakes w₀ = [] ∧
      ∀ c' u w, Function.update L.calls c .idle c' ≠ .waking u w := by
  have hw : w = w₀ := hat.calls c w (by rw [hc]; rfl)
  cases σ with
  | none | accepted => exact absurd hc (h.1 c u w)
  | waking c₀ =>
    obtain ⟨-, hone, hnil⟩ := h
    obtain rfl := hone c u w hc
    refine ⟨hw, rfl, hnil, ?_⟩
    intro c' u' w' hx
    by_cases hne : c' = c
    · rw [hne, Function.update_self] at hx
      cases hx
    · rw [Function.update_of_ne hne] at hx
      exact hne (hone c' u' w' hx)

omit [DecidableEq κ] in
/-- The wake-up a worker finds pending is the only one. -/
theorem Lane.Signals.pending (h : L.Signals w₀ σ) (hat : L.At w₀) {w : Nat} {u : BitVec 64}
    {us : List (BitVec 64)} (hw : L.wakes w = u :: us) :
    w = w₀ ∧ σ = .accepted ∧ us = [] ∧ ∀ c u w, L.calls c ≠ .waking u w := by
  obtain rfl := hat.worker_of_wake hw
  cases σ with
  | none =>
    rw [h.2] at hw
    cases hw
  | waking c =>
    rw [h.2.2] at hw
    cases hw
  | accepted =>
    obtain ⟨hno, u', hu⟩ := h
    rw [hu] at hw
    cases hw
    exact ⟨rfl, rfl, rfl, hno⟩

/-- A cancel empties the queue and removes the wake-up, if it has been accepted. -/
theorem Lane.Signals.cancelQueue (h : L.Signals w₀ σ) (hat : L.At w₀) {c : κ}
    (hs : LaneStep r L (.cancelQueue c) L') :
    ∃ σ', L'.Signals w₀ σ' ∧ SignalStep r L w₀ (.cancelQueue c) L' σ σ' := by
  cases hs with
  | @cancelQueue _ w hc =>
    obtain rfl : w = w₀ := hat.calls c w (by rw [hc]; rfl)
    have hpc : ∀ u w', (if (L.queue w).length % 2 ^ 32 > 0 then LaneCall.uncounting (L.queue w).length
        else .idle) ≠ .waking u w' := by
      intro u w'
      split <;> simp
    have hnil : Function.update L.wakes w [] w = [] := Function.update_self ..
    have hkeeps : L.Keeps r (.cancelQueue c) { L with
        queue := Function.update L.queue w []
        wakes := Function.update L.wakes w []
        calls := Function.update L.calls c (if (L.queue w).length % 2 ^ 32 > 0 then
          .uncounting (L.queue w).length else .idle) } w :=
      ⟨.inr ⟨⟨c, rfl⟩, Function.update_self ..⟩, fun w t u hx => hx⟩
    cases σ with
    | none => exact ⟨.none, h.setCall (by simp [hc]) hpc rfl (hnil.trans h.2.symm), .same hkeeps⟩
    | waking c₀ =>
      exact ⟨_, h.setCall (by simp [hc]) hpc rfl (hnil.trans h.2.2.symm), .same hkeeps⟩
    | accepted =>
      refine ⟨.none, ⟨?_, hnil⟩, .lose hkeeps (.cancel c)⟩
      intro c' u w'
      exact (Function.forall_update_iff L.calls fun _ pc => pc ≠ .waking u w').mpr
        ⟨hpc u w', fun c _ => h.1 c u w'⟩ c'

/-- The only wake-up of a lane in every step but a new one. -/
theorem signal_step (hat : L.At w₀) (h : L.Signals w₀ σ) (hs : LaneStep r L l L')
    (hatt : ∀ c w nodes, l ≠ .attach c w nodes) (hlook : ∀ c u, l ≠ .lookWake c u) :
    ∃ σ', L'.Signals w₀ σ' ∧ SignalStep r L w₀ l L' σ σ' := by
  have hsame : ∀ {l : LaneLabel κ α} {c : κ} {pc : LaneCall} {ctx : Option RequestContext},
      (∀ u w, L.calls c ≠ .waking u w) → (∀ u w, pc ≠ .waking u w) →
      ∃ σ', Lane.Signals { L with ctx, calls := Function.update L.calls c pc } w₀ σ' ∧
        SignalStep r L w₀ l { L with ctx, calls := Function.update L.calls c pc } σ σ' :=
    fun hc hpc => ⟨σ, h.setCall hc hpc rfl rfl, .same ⟨.inl rfl, fun w t u hx => hx⟩⟩
  have hexecs : ∀ {w : Nat} {x : Exec α}, (∀ t u, x ≠ .running t r u) → ∀ w' t u,
      Function.update L.exec w x w' = .running t r u → L.exec w' = .running t r u := by
    intro w x hx w' t u he
    by_cases hne : w' = w
    · rw [hne, Function.update_self] at he
      exact absurd he (hx t u)
    · rwa [Function.update_of_ne hne] at he
  cases hs with
  | tau => exact ⟨σ, h, .same ⟨.inl rfl, fun w t u hx => hx⟩⟩
  | submit hc | giveUp hc | record hc | lookCancel hc | uncount hc =>
    exact hsame (by simp [hc]) (by simp)
  | attach => exact absurd rfl (hatt _ _ _)
  | lookWake => exact absurd rfl (hlook _ _)
  | @pushWake c u w hc =>
    obtain ⟨rfl, rfl, hnil, hno⟩ := h.leave hat hc
    refine ⟨.accepted, ⟨hno, u, ?_⟩, .accept ⟨.inl rfl, fun w t u hx => hx⟩⟩
    show Function.update L.wakes w (L.wakes w ++ [u]) w = [u]
    rw [Function.update_self, hnil]
    rfl
  | @dropWake c u w hc =>
    obtain ⟨rfl, rfl, hnil, hno⟩ := h.leave hat hc
    exact ⟨.none, ⟨hno, hnil⟩, .lose ⟨.inl rfl, fun w t u hx => hx⟩ (.drop c)⟩
  | cancelQueue hc => exact h.cancelQueue hat (.cancelQueue hc)
  | @take w u us task queue hexec hw hpop =>
    obtain ⟨rfl, rfl, rfl, hno⟩ := h.pending hat hw
    refine ⟨.none, ⟨hno, Function.update_self ..⟩, .serve hexec ?_ rfl⟩
    rw [hpop]
    show _ = some (task, Function.update L.queue w queue w)
    rw [Function.update_self]
  | @miss w u us hexec hw hpop =>
    obtain ⟨rfl, rfl, rfl, hno⟩ := h.pending hat hw
    exact ⟨.none, ⟨hno, Function.update_self ..⟩,
      .lose ⟨.inl rfl, fun w t u hx => hx⟩ (.miss (by rw [hw]; exact List.mem_cons_self) hpop)⟩
  | @finish w task u ret hexec =>
    refine ⟨σ, ?_, .same ⟨.inl rfl, hexecs (by simp)⟩⟩
    cases σ <;> exact h
  | @account w task ret hexec =>
    refine ⟨σ, ?_, .same ⟨.inl rfl, hexecs (by simp)⟩⟩
    cases σ <;> exact h

/-- A new wake-up. -/
theorem Lane.Signals.look (h : L.Signals w₀ .none) (hat : L.At w₀) {c : κ} {u : BitVec 64}
    (hs : LaneStep r L (.lookWake c u) L') :
    L'.Signals w₀ (.waking c) ∧ L.Keeps r (.lookWake c u) L' w₀ := by
  cases hs with
  | @lookWake _ _ ctx hc hctx =>
    refine ⟨⟨⟨u, ?_⟩, ?_, h.2⟩, .inl rfl, fun w t u hx => hx⟩
    · show Function.update L.calls c (.waking u ctx.workerIdx) c = _
      rw [Function.update_self, hat.ctx ctx hctx]
    · intro c' u' w' hx
      by_contra hne
      have hx' : Function.update L.calls c (.waking u ctx.workerIdx) c' = .waking u' w' := hx
      rw [Function.update_of_ne hne] at hx'
      exact h.1 c' u' w' hx'

end Signal

/-! ## The wire

What a step adds to posts and completions. -/

/-- The event is a post for request `q`. -/
def Event.posts (q : Nat) : Event → Bool
  | .post q' _ _ _ _ _ => q' == q
  | _ => false

/-- What a step does to the posts and to the completions still due. -/
inductive WireMove (s : Transport) (a : Action) (s' : Transport) : Prop
  | quiet {events : List Event} (htrace : s'.trace = s.trace ++ events)
      (hev : ∀ e ∈ events, ∀ q, e.posts q = false) (hout : s'.outstanding = s.outstanding)
  | post {q : Nat} {op : UrmaOpcode} {k : Nat} {queue : SendQueue} {wr : UrmaJfsWr}
      {st : UrmaStatus} (hcause : Causes s a (.post q op k queue wr st))
      (htrace : s'.trace = s.trace ++ [.post q op k queue wr st])
      (hout : s'.outstanding =
        if st = urmaSuccess then s.outstanding ++ [wr.userCtx] else s.outstanding)
  | handled {k : Nat} {cr : UrmaCr} {status : UrmaStatus} {events : List Event}
      (ha : a = .completion k cr status) (htrace : s'.trace = s.trace ++ .completion cr :: events)
      (hev : ∀ e ∈ events, ∀ q, e.posts q = false)
      (hout : s'.outstanding = if cr.sR then s.outstanding else s.outstanding.erase cr.userCtx)

section Wire

variable {s s' : Transport}

/-- Every step of the transport is one of these, seen from the wire. -/
theorem Move.wire {a : Action} (hm : Move s a s') : WireMove s a s' := by
  have hquiet : s'.trace = s.trace → s'.outstanding = s.outstanding → WireMove s a s' := by
    intro htrace hout
    have hnil : s'.trace = s.trace ++ [] := by rw [htrace, List.append_nil]
    exact .quiet hnil (by simp) hout
  cases hm with
  | firstWrite hc hinfo hpost =>
    rcases post_wire hpost with ⟨-, -, rfl⟩ | ⟨queue, wr, hwr, htrace, hout⟩
    · exact hquiet rfl rfl
    · exact .post (.first hc hinfo hwr) htrace hout
  | notify hexec hbody harg hpost =>
    rcases post_wire hpost with ⟨-, -, rfl⟩ | ⟨queue, wr, hwr, htrace, hout⟩
    · exact hquiet rfl rfl
    · exact .post (.notify hexec hbody harg hwr) htrace hout
  | write hexec hbody harg hpost =>
    rcases post_wire hpost with ⟨-, -, rfl⟩ | ⟨queue, wr, hwr, htrace, hout⟩
    · exact hquiet rfl rfl
    · exact .post (.write hexec hbody harg hwr) htrace hout
  | prefill hc hinfo hinit | prefillFailed hc hinfo hinit =>
    refine .quiet rfl ?_ rfl
    intro e he q
    obtain ⟨status, rfl⟩ := prefill_recvPost hinit e he
    rfl
  | ignored hidle hcr hev hout | completion hidle hcr hpool hev hout =>
    obtain ⟨reposts, rfl, hre⟩ := hev
    refine .handled rfl rfl ?_ hout
    intro e he q
    obtain ⟨jetty, status, rfl⟩ := hre e he
    rfl
  | callback | mark =>
    refine .quiet rfl ?_ rfl
    intro e he q
    obtain rfl := List.mem_singleton.mp he
    rfl
  | _ => exact hquiet rfl rfl

end Wire

/-! ## The schedule

Write and notify, chunk after chunk. -/

/-- The posts of a send of `n` chunks, in their order. -/
def schedule (n : Nat) : List (UrmaOpcode × Nat) :=
  (List.range n).flatMap fun i => [(.write, i), (.sendImm, i)]

/-- One chunk more: its write, and its announcement. -/
theorem schedule_succ (n : Nat) : schedule (n + 1) = schedule n ++ [(.write, n), (.sendImm, n)] := by
  simp [schedule, List.range_succ]

/-- The schedule of fewer chunks is a beginning. -/
theorem schedule_le {i n : Nat} (h : i ≤ n) : schedule i <+: schedule n := by
  induction n with
  | zero =>
    obtain rfl : i = 0 := by omega
    exact List.prefix_rfl
  | succ n ih =>
    by_cases hi : i = n + 1
    · rw [hi]
    · rw [schedule_succ]
      exact (ih (by omega)).trans (List.prefix_append _ _)

/-- So is that schedule with the next write. -/
theorem schedule_write_le {i n : Nat} (h : i < n) :
    schedule i ++ [(.write, i)] <+: schedule n := by
  refine List.IsPrefix.trans ?_ (schedule_le h)
  rw [schedule_succ]
  exact ⟨[(.sendImm, i)], by simp⟩

/-- Which chunk a post is about, and how. -/
def Event.place : Event → Option (UrmaOpcode × Nat)
  | .post _ op k _ _ _ => some (op, k)
  | _ => none

/-- The post was accepted by the library. -/
def Event.accepted : Event → Bool
  | .post _ _ _ _ _ st => st == urmaSuccess
  | _ => true

/-- The posts of request `q`, oldest first. -/
def sendPosts (q : Nat) (trace : List Event) : List Event := trace.filter (Event.posts q)

/-- The tag of a write of the request with id `r`: its completion wakes a task. -/
def ownTag (r : ReqId) (x : BitVec 64) : Bool :=
  (UserData.ofUserCtx x).requestId.setWidth 64 == r &&
    decide ((UserData.ofUserCtx x).chunkId.toNat < maxChunkNum)

/-! ## The baton

From a place of the baton follow the posts made so far, the completion that is due, and who acts
next. -/

/-- Where the one thing under way for a send is.  It goes from the caller to the wire, from there to
    the pool, and to a worker, which puts it on the wire again with the next chunk. -/
inductive Baton
  /-- The caller has not posted the write of chunk 0. -/
  | first
  /-- The write of chunk `i` was posted with the tag `x`; its completion is due. -/
  | flight (i : Nat) (x : BitVec 64)
  /-- That completion was handled by call `c`, which has looked up the worker. -/
  | waking (i : Nat) (c : Proc)
  /-- The worker has the wake-up. -/
  | accepted (i : Nat)
  /-- It is about to post the notify of chunk `i`. -/
  | notifying (i : Nat)
  /-- It is about to post the write of chunk `i + 1`. -/
  | writing (i : Nat)
  /-- Nothing is under way any more. -/
  | stopped

namespace Baton

/-- What has been posted. -/
def places : Baton → List (UrmaOpcode × Nat)
  | .first => []
  | .flight i _ => schedule i ++ [(.write, i)]
  | .waking i _ => schedule i ++ [(.write, i)]
  | .accepted i => schedule i ++ [(.write, i)]
  | .notifying i => schedule i ++ [(.write, i)]
  | .writing i => schedule (i + 1)
  | .stopped => []

/-- The tags of writes that are due. -/
def own : Baton → List (BitVec 64)
  | .flight _ x => [x]
  | _ => []

def signal : Baton → Signal Proc
  | .waking _ c => .waking c
  | .accepted _ => .accepted
  | _ => .none

/-- The chunk whose write is complete and whose notify is next. -/
def ready : Baton → Option Nat
  | .waking i _ => some i
  | .accepted i => some i
  | .notifying i => some i
  | _ => none

/-- The index of the next task in the queue. -/
def next : Baton → Nat
  | .flight i _ => i
  | .waking i _ => i
  | .accepted i => i
  | .notifying i => i + 1
  | .writing i => i + 1
  | _ => 0

/-- The task in execution that is about to post, and where it is. -/
def acts : Baton → Option (Nat × Body)
  | .notifying i => some (i, .start)
  | .writing i => some (i, .write)
  | _ => none

/-- The chunks there are bound it. -/
def Fits (n : Nat) : Baton → Prop
  | .flight i _ => i < n
  | .waking i _ => i < n
  | .accepted i => i < n
  | .notifying i => i < n
  | .writing i => i + 1 < n
  | _ => True

/-- What has been posted begins the schedule. -/
theorem Fits.places {n : Nat} {b : Baton} (h : b.Fits n) (hb : b ≠ .stopped) :
    b.places <+: schedule n := by
  cases b with
  | first => exact List.nil_prefix
  | flight i x | waking i x | accepted i | notifying i => exact schedule_write_le h
  | writing i =>
    have hlt : i + 1 < n := h
    exact schedule_le (by omega)
  | stopped => exact absurd rfl hb

end Baton

/-! ## The baton on the wire

The history fits the baton: what is posted is a beginning of the schedule. -/

/-- The write of chunk `i` was posted, and its completion handled after it. -/
def Completed (q i : Nat) (trace : List Event) : Prop :=
  ∃ queue wr cr, cr.sR = false ∧ cr.userCtx = wr.userCtx ∧
    [.post q .write i queue wr urmaSuccess, .completion cr].Sublist trace

/-- The post `e` for chunk `i` comes after both. -/
def Announced (q i : Nat) (e : Event) (trace : List Event) : Prop :=
  ∃ queue wr cr, cr.sR = false ∧ cr.userCtx = wr.userCtx ∧
    [.post q .write i queue wr urmaSuccess, .completion cr, e].Sublist trace

/-- The history and the completions that are due fit the baton of a send of `n` chunks.  `exact`:
    nobody has disturbed it, so it stops only at the end or at a post that failed. -/
structure Wire (q : Nat) (r : ReqId) (n : Nat) (exact : Prop) (trace : List Event)
    (out : List (BitVec 64)) (b : Baton) : Prop where
  sent : b ≠ .stopped → (sendPosts q trace).filterMap Event.place = b.places ∧
    ∀ e ∈ sendPosts q trace, e.accepted = true
  halted : b = .stopped → (sendPosts q trace).filterMap Event.place <+: schedule n ∧
    (∀ e ∈ (sendPosts q trace).dropLast, e.accepted = true) ∧
    (exact → (sendPosts q trace).filterMap Event.place = schedule n ∨
      (∃ e ∈ sendPosts q trace, e.accepted = false) ∨ sendPosts q trace = [])
  own : out.filter (ownTag r) = b.own
  flight : ∀ i x, b = .flight i x →
    ∃ queue wr, .post q .write i queue wr urmaSuccess ∈ trace ∧ wr.userCtx = x
  ready : ∀ i, b.ready = some i → Completed q i trace
  announced : ∀ i queue wr st, .post q .sendImm i queue wr st ∈ trace →
    Announced q i (.post q .sendImm i queue wr st) trace

section Wire

variable {q n : Nat} {r : ReqId} {exact : Prop} {trace events : List Event}
  {out out' : List (BitVec 64)} {b b' : Baton}

/-- Events that post nothing for the request. -/
theorem sendPosts_quiet (hev : ∀ e ∈ events, e.posts q = false) :
    sendPosts q (trace ++ events) = sendPosts q trace := by
  have hnil : events.filter (Event.posts q) = [] := by
    refine List.filter_eq_nil_iff.mpr ?_
    intro e he
    rw [hev e he]
    exact Bool.false_ne_true
  rw [sendPosts, List.filter_append, hnil, List.append_nil]
  rfl

/-- What has completed has completed for good. -/
theorem Completed.append (h : Completed q i trace) (events : List Event) :
    Completed q i (trace ++ events) := by
  obtain ⟨queue, wr, cr, hside, htag, hsub⟩ := h
  exact ⟨queue, wr, cr, hside, htag, hsub.trans (List.sublist_append_left _ _)⟩

/-- What has been announced has been announced for good. -/
theorem Announced.append {e : Event} (h : Announced q i e trace) (events : List Event) :
    Announced q i e (trace ++ events) := by
  obtain ⟨queue, wr, cr, hside, htag, hsub⟩ := h
  exact ⟨queue, wr, cr, hside, htag, hsub.trans (List.sublist_append_left _ _)⟩

theorem mem_sendPosts {e : Event} (he : e ∈ trace) (hq : e.posts q = true) :
    e ∈ sendPosts q trace := List.mem_filter.mpr ⟨he, hq⟩

/-- Events that post nothing for the request. -/
theorem Wire.frame (h : Wire q r n exact trace out b) (hposts : ∀ e ∈ events, e.posts q = false)
    (hout : out'.filter (ownTag r) = out.filter (ownTag r)) :
    Wire q r n exact (trace ++ events) out' b := by
  have hsame : sendPosts q (trace ++ events) = sendPosts q trace := sendPosts_quiet hposts
  constructor
  · rw [hsame]
    exact h.sent
  · rw [hsame]
    exact h.halted
  · rw [hout, h.own]
  · intro i x hb
    obtain ⟨queue, wr, hpost, hx⟩ := h.flight i x hb
    exact ⟨queue, wr, List.mem_append_left _ hpost, hx⟩
  · intro i hi
    exact (h.ready i hi).append events
  · intro i queue wr st hmem
    rcases List.mem_append.mp hmem with hmem | hmem
    · exact (h.announced i queue wr st hmem).append events
    · have := hposts _ hmem
      simp [Event.posts] at this

/-- The baton is passed on without a post. -/
theorem Wire.pass (h : Wire q r n exact trace out b) (hb : b ≠ .stopped) (hb' : b' ≠ .stopped)
    (hplaces : b'.places = b.places) (hown : b'.own = b.own) (hflight : ∀ i x, b' ≠ .flight i x)
    (hready : ∀ i, b'.ready = some i → b.ready = some i) : Wire q r n exact trace out b' where
  sent _ := hplaces ▸ h.sent hb
  halted hs := absurd hs hb'
  own := hown ▸ h.own
  flight i x hx := absurd hx (hflight i x)
  ready i hi := h.ready i (hready i hi)
  announced := h.announced

/-- It is dropped: somebody has interfered. -/
theorem Wire.drop (h : Wire q r n exact trace out b) (hb : b ≠ .stopped)
    (hplaces : b.places <+: schedule n) (hown : b.own = []) (hexact : ¬ exact) :
    Wire q r n exact trace out .stopped where
  sent hs := absurd rfl hs
  halted _ := by
    obtain ⟨hsent, haccepted⟩ := h.sent hb
    exact ⟨hsent ▸ hplaces, fun e he => haccepted e (List.dropLast_subset _ he),
      fun hx => absurd hx hexact⟩
  own := by rw [h.own, hown]; rfl
  flight i x hx := by cases hx
  ready i hi := by cases hi
  announced := h.announced

/-- The completion of the write in flight is handled. -/
theorem Wire.complete {i : Nat} {x : BitVec 64} {cr : UrmaCr} {c : Proc}
    (h : Wire q r n exact trace out (.flight i x)) (hside : cr.sR = false)
    (hdue : cr.userCtx ∈ out) (hown : ownTag r cr.userCtx = true)
    (hposts : ∀ e ∈ events, e.posts q = false) :
    Wire q r n exact (trace ++ .completion cr :: events) (out.erase cr.userCtx) (.waking i c) := by
  have hquiet : ∀ e ∈ Event.completion cr :: events, e.posts q = false := by
    intro e he
    rcases List.mem_cons.mp he with rfl | he
    · rfl
    · exact hposts e he
  have hx : cr.userCtx = x := by
    have hmem : cr.userCtx ∈ out.filter (ownTag r) := List.mem_filter.mpr ⟨hdue, hown⟩
    rw [h.own] at hmem
    exact List.mem_singleton.mp hmem
  have hframe := h.frame hquiet rfl
  obtain ⟨hsent, haccepted⟩ := hframe.sent (by simp)
  constructor
  · intro _
    exact ⟨hsent, haccepted⟩
  · intro hs
    cases hs
  · rw [← List.erase_filter, h.own, hx]
    simp [Baton.own]
  · intro i x hx
    cases hx
  · intro j hj
    obtain rfl : i = j := Option.some.inj hj
    obtain ⟨queue, wr, hpost, htag⟩ := h.flight i x rfl
    refine ⟨queue, wr, cr, hside, by rw [hx, htag], ?_⟩
    exact List.Sublist.append (List.singleton_sublist.mpr hpost)
      (List.singleton_sublist.mpr List.mem_cons_self)
  · exact hframe.announced

variable {op : UrmaOpcode} {k : Nat} {queue : SendQueue} {wr : UrmaJfsWr} {st : UrmaStatus}

/-- A post of the request comes last. -/
theorem sendPosts_post : sendPosts q (trace ++ [.post q op k queue wr st])
    = sendPosts q trace ++ [.post q op k queue wr st] := by
  rw [sendPosts, List.filter_append]
  simp [Event.posts, sendPosts]

/-- A notify is announced if the write it announces is complete. -/
theorem Wire.announce (h : Wire q r n exact trace out b) (hop : op = .sendImm → b.ready = some k) :
    ∀ i queue' wr' st', .post q .sendImm i queue' wr' st' ∈ trace ++ [.post q op k queue wr st] →
      Announced q i (.post q .sendImm i queue' wr' st') (trace ++ [.post q op k queue wr st]) := by
  intro i queue' wr' st' hmem
  rcases List.mem_append.mp hmem with hmem | hmem
  · exact (h.announced i queue' wr' st' hmem).append _
  · cases List.mem_singleton.mp hmem
    obtain ⟨queue'', wr'', cr, hside, htag, hsub⟩ := h.ready k (hop rfl)
    exact ⟨queue'', wr'', cr, hside, htag, hsub.append (List.Sublist.refl _)⟩

/-- A post that the library accepts passes the baton on. -/
theorem Wire.post (h : Wire q r n exact trace out b) (hb : b ≠ .stopped) (hown : b.own = [])
    (hop : op = .sendImm → b.ready = some k) (hb' : b' ≠ .stopped)
    (hplaces : b'.places = b.places ++ [(op, k)])
    (hown' : b'.own = if ownTag r wr.userCtx then [wr.userCtx] else [])
    (hflight : ∀ i x, b' = .flight i x → op = .write ∧ i = k ∧ x = wr.userCtx)
    (hready : b'.ready = none) :
    Wire q r n exact (trace ++ [.post q op k queue wr urmaSuccess]) (out ++ [wr.userCtx]) b' := by
  obtain ⟨hsent, haccepted⟩ := h.sent hb
  constructor
  · intro _
    rw [sendPosts_post, List.filterMap_append, hsent, hplaces]
    refine ⟨rfl, ?_⟩
    intro e he
    rcases List.mem_append.mp he with he | he
    · exact haccepted e he
    · rw [List.mem_singleton.mp he]
      exact beq_self_eq_true _
  · intro hs
    exact absurd hs hb'
  · rw [List.filter_append, h.own, hown, hown', List.nil_append]
    split <;> simp_all
  · intro i x hx
    obtain ⟨rfl, rfl, rfl⟩ := hflight i x hx
    exact ⟨queue, wr, List.mem_append_right _ (List.mem_singleton_self _), rfl⟩
  · intro i hi
    rw [hready] at hi
    cases hi
  · exact h.announce hop

/-- One that it refuses, or the last notify, ends the pipeline. -/
theorem Wire.post_last (h : Wire q r n exact trace out b) (hb : b ≠ .stopped) (hown : b.own = [])
    (hop : op = .sendImm → b.ready = some k) (hplaces : b.places ++ [(op, k)] <+: schedule n)
    (hlast : st = urmaSuccess → b.places ++ [(op, k)] = schedule n ∧ ownTag r wr.userCtx = false) :
    Wire q r n exact (trace ++ [.post q op k queue wr st])
      (if st = urmaSuccess then out ++ [wr.userCtx] else out) .stopped := by
  obtain ⟨hsent, haccepted⟩ := h.sent hb
  have hall : (sendPosts q (trace ++ [.post q op k queue wr st])).filterMap Event.place
      = b.places ++ [(op, k)] := by
    rw [sendPosts_post, List.filterMap_append, hsent]
    rfl
  constructor
  · intro hs
    exact absurd rfl hs
  · intro _
    rw [hall]
    refine ⟨hplaces, ?_, ?_⟩
    · rw [sendPosts_post, List.dropLast_concat]
      exact haccepted
    · intro _
      by_cases hst : st = urmaSuccess
      · exact .inl (hlast hst).1
      · refine .inr (.inl ⟨.post q op k queue wr st, ?_, beq_eq_false_iff_ne.mpr hst⟩)
        rw [sendPosts_post]
        exact List.mem_append_right _ (List.mem_singleton_self _)
  · split
    · rename_i hst
      rw [List.filter_append, h.own, hown]
      simp [(hlast hst).2, Baton.own]
    · rw [h.own, hown]
      rfl
  · intro i x hx
    cases hx
  · intro i hi
    cases hi
  · exact h.announce hop

end Wire

/-! ## The baton in the lane

The lane fits it as well: the queue lacks as many tasks as chunks were announced. -/

/-- The lane of a send whose tasks are `nodes` fits the baton. -/
structure OnLane (exact : Prop) (L : Lane Proc ArgPtr) (w₀ : Nat) (nodes : List (TaskNode ArgPtr))
    (b : Baton) : Prop where
  at_ : L.At w₀
  signal : L.Signals w₀ b.signal
  queue : b = .stopped ∨ L.queue w₀ = nodes.drop b.next ∨ ¬ exact ∧ L.queue w₀ = []
  fits : b.Fits nodes.length

/-- The baton stays, its wake-up is accepted, or it is lost.  These are the moves that the lane
    alone can make, without a post or a completion. -/
inductive Passes (exact : Prop) : Baton → Baton → Prop
  | refl (b : Baton) : Passes exact b b
  | accept (i : Nat) (c : Proc) : Passes exact (.waking i c) (.accepted i)
  | drop {b : Baton} {i : Nat} (hb : b.ready = some i) (hacts : b.acts = none) (hexact : ¬ exact) :
      Passes exact b .stopped

section OnLane

variable {q n : Nat} {r : ReqId} {exact : Prop} {L L' : Lane Proc ArgPtr}
  {l : LaneLabel Proc ArgPtr} {w₀ : Nat} {nodes : List (TaskNode ArgPtr)} {b b' : Baton}

/-- It does not change who is about to post, -/
theorem Passes.acts (h : Passes exact b b') : b'.acts = b.acts := by
  cases h with
  | refl | accept => rfl
  | drop _ hacts => exact hacts.symm

/-- nor whether the caller has the first write before it. -/
theorem Passes.first (h : Passes exact b b') : b' = .first ↔ b = .first := by
  cases h with
  | refl => exact Iff.rfl
  | accept => simp
  | drop hb =>
    constructor
    · intro hx
      cases hx
    · rintro rfl
      cases hb

/-- A baton that has stopped stays so. -/
theorem Passes.stopped (h : Passes exact b b') (hb : b = .stopped) : b' = .stopped := by
  subst hb
  cases h with
  | refl => rfl
  | drop hready => cases hready

/-- Passing the baton posts nothing. -/
theorem Passes.wire {trace : List Event} {out : List (BitVec 64)} (h : Passes exact b b')
    (hfits : b.Fits n) (hw : Wire q r n exact trace out b) : Wire q r n exact trace out b' := by
  cases h with
  | refl => exact hw
  | accept i c => exact hw.pass (by simp) (by simp) rfl rfl (by simp) fun _ h => h
  | @drop _ i hb hacts hexact =>
    cases b with
    | waking i c | accepted i =>
      exact hw.drop (by simp) (schedule_write_le hfits) rfl hexact
    | first | flight | writing | stopped => cases hb
    | notifying => cases hacts

/-- The next task in the queue answers any wake-up of the request. -/
theorem pop_drop {i : Nat} {u : BitVec 64} (hanswer : ∀ t ∈ nodes, ∀ u, answersWakeUp r u t = true)
    (hi : i < nodes.length) :
    workerQueuePopByReqAndUserData (nodes.drop i) r u = some (nodes[i], nodes.drop (i + 1)) := by
  rw [List.drop_eq_getElem_cons hi]
  unfold workerQueuePopByReqAndUserData Queue.popFirst
  rw [if_pos (hanswer _ (List.getElem_mem hi) u)]

/-- A wake-up of a send is lost only where that is allowed: it is not dropped, nothing cancels it,
    and the worker that serves it finds the next task. -/
theorem OnLane.not_exact_of_loses (h : OnLane exact L w₀ nodes b) (hs : LaneStep r L l L')
    (hcalm : exact → (∀ c w, L.calls c ≠ .cancelling w) ∧ ∀ c, l ≠ .dropWake c)
    (hanswer : ∀ t ∈ nodes, ∀ u, answersWakeUp r u t = true) (hl : Loses r L w₀ l)
    (hne : b.signal ≠ .none) : ¬ exact := by
  intro hx
  cases hl with
  | drop => exact (hcalm hx).2 _ rfl
  | cancel =>
    cases hs with
    | cancelQueue hc => exact (hcalm hx).1 _ _ hc
  | @miss u hw hpop =>
    have hsignal := h.signal
    cases b with
    | accepted i =>
      rcases h.queue with hb | hq | ⟨hx', -⟩
      · cases hb
      · rw [hq] at hpop
        change workerQueuePopByReqAndUserData (nodes.drop i) r u = none at hpop
        rw [pop_drop hanswer h.fits] at hpop
        cases hpop
      · exact hx' hx
    | waking i c =>
      rw [hsignal.2.2] at hw
      cases hw
    | _ => exact hne rfl

/-- A worker that serves the accepted wake-up takes the next task of the send. -/
theorem OnLane.serve (h : OnLane exact L w₀ nodes b) (hsignal : b.signal = .accepted)
    (hanswer : ∀ t ∈ nodes, ∀ u, answersWakeUp r u t = true) {t : TaskNode ArgPtr} {u : BitVec 64}
    (hpop : workerQueuePopByReqAndUserData (L.queue w₀) r u = some (t, L'.queue w₀))
    (hat' : L'.At w₀) (hσ' : L'.Signals w₀ .none) :
    ∃ i, b = .accepted i ∧ nodes[i]? = some t ∧ OnLane exact L' w₀ nodes (.notifying i) := by
  cases b with
  | accepted i =>
    have hi : i < nodes.length := h.fits
    rcases h.queue with hb | hq | ⟨-, hnil⟩
    · cases hb
    · rw [hq] at hpop
      change workerQueuePopByReqAndUserData (nodes.drop i) r u = some (t, L'.queue w₀) at hpop
      rw [pop_drop hanswer hi] at hpop
      obtain ⟨ht, hq'⟩ := Prod.mk.inj (Option.some.inj hpop)
      exact ⟨i, rfl, by rw [List.getElem?_eq_getElem hi, ht], hat', hσ', .inr (.inl hq'.symm), hi⟩
    · rw [hnil] at hpop
      cases hpop
  | _ => cases hsignal

/-- What a step of the lane other than a new wake-up does to the baton. -/
theorem OnLane.step (h : OnLane exact L w₀ nodes b) (hs : LaneStep r L l L')
    (hatt : ∀ c w nodes, l ≠ .attach c w nodes) (hlook : ∀ c u, l ≠ .lookWake c u)
    (hcalm : exact → (∀ c w, L.calls c ≠ .cancelling w) ∧ ∀ c, l ≠ .dropWake c)
    (hanswer : ∀ t ∈ nodes, ∀ u, answersWakeUp r u t = true) :
    (∃ b', OnLane exact L' w₀ nodes b' ∧ Passes exact b b' ∧
      ∀ w t u, L'.exec w = .running t r u → L.exec w = .running t r u) ∨
    ∃ i t u, b = .accepted i ∧ l = .take w₀ t u ∧ nodes[i]? = some t ∧ L.exec w₀ = .loop ∧
      L'.exec = Function.update L.exec w₀ (.running t r u) ∧
      OnLane exact L' w₀ nodes (.notifying i) := by
  have hat' := at_step h.at_ hs hatt
  have hqueue : L.Keeps r l L' w₀ → b = .stopped ∨ L'.queue w₀ = nodes.drop b.next ∨
      ¬ exact ∧ L'.queue w₀ = [] := by
    intro hk
    rcases hk.queue with heq | ⟨⟨c, rfl⟩, hnil⟩
    · rw [heq]
      exact h.queue
    · refine .inr (.inr ⟨?_, hnil⟩)
      intro hx
      cases hs with
      | cancelQueue hc => exact (hcalm hx).1 _ _ hc
  obtain ⟨σ', hσ', hstep⟩ := signal_step h.at_ h.signal hs hatt hlook
  generalize hσ : b.signal = σ at hstep
  cases hstep with
  | same hk =>
    exact .inl ⟨b, ⟨hat', hσ ▸ hσ', hqueue hk, h.fits⟩, .refl b, hk.exec⟩
  | accept hk =>
    cases b with
    | waking i c =>
      cases hσ
      refine .inl ⟨.accepted i, ⟨hat', hσ', ?_, h.fits⟩, .accept i _, hk.exec⟩
      rcases hqueue hk with hb | hb
      · cases hb
      · exact .inr hb
    | _ => cases hσ
  | lose hk hl =>
    have hstopped : b.ready ≠ none → b.acts = none → b.signal ≠ .none →
        ∃ b', OnLane exact L' w₀ nodes b' ∧ Passes exact b b' ∧
          ∀ w t u, L'.exec w = .running t r u → L.exec w = .running t r u := by
      intro hready hacts hne
      obtain ⟨i, hi⟩ := Option.ne_none_iff_exists'.mp hready
      exact ⟨.stopped, ⟨hat', hσ', .inl rfl, trivial⟩,
        .drop hi hacts (h.not_exact_of_loses hs hcalm hanswer hl hne), hk.exec⟩
    have hstays : b.signal = .none → ∃ b', OnLane exact L' w₀ nodes b' ∧ Passes exact b b' ∧
        ∀ w t u, L'.exec w = .running t r u → L.exec w = .running t r u := by
      intro hnone
      exact ⟨b, ⟨hat', hnone ▸ hσ', hqueue hk, h.fits⟩, .refl b, hk.exec⟩
    left
    cases b with
    | waking | accepted => exact hstopped (by simp [Baton.ready]) rfl (by simp [Baton.signal])
    | first | flight | notifying | writing | stopped => exact hstays rfl
  | @serve t u _ hloop hpop hexec =>
    obtain ⟨i, rfl, ht, hnext⟩ := h.serve hσ hanswer hpop hat' hσ'
    exact .inr ⟨i, t, u, rfl, rfl, ht, hloop, hexec, hnext⟩

/-- The completion of the write in flight makes the only wake-up. -/
theorem OnLane.look {i : Nat} {x : BitVec 64} {c : Proc} {u : BitVec 64}
    (h : OnLane exact L w₀ nodes (.flight i x)) (hs : LaneStep r L (.lookWake c u) L') :
    OnLane exact L' w₀ nodes (.waking i c) ∧
      ∀ w t u, L'.exec w = .running t r u → L.exec w = .running t r u := by
  obtain ⟨hsignal, hk⟩ := h.signal.look h.at_ hs
  refine ⟨⟨at_step h.at_ hs (by simp), hsignal, ?_, h.fits⟩, hk.exec⟩
  rcases hk.queue with heq | ⟨⟨c', hc'⟩, -⟩
  · rw [heq]
    rcases h.queue with hb | hb
    · cases hb
    · exact .inr hb
  · cases hc'

end OnLane

end OsTransport
