/-
  The receive context of a handle.

  `os_transport_recv` posts receive work requests to its endpoint before it returns
  (`urma_recv_ctx_init`), and `os_transport_wake_up_task` posts one for each that a completion has
  consumed (`urma_recv_ctx_add`).  Both go by the one jetty the handle remembers.

  `Transport` runs either function in one step.  Here the unlocked comparison, the locked one and
  every post are steps of their own, so any number of calls and completions interleave inside
  them; `init_alone` and `add_alone` say that a call nobody disturbs does what `Transport` says.

  Two results, both about every run that meets a condition on its steps:

  * `recv_prefilled`     — a call that returns `0` has work requests behind it, unless a `NULL` jetty
                           was compared with the `NULL` a fresh handle remembers;
  * `credit_conserved`   — no work request is lost or added as long as the calls and the
                           completions belong to the remembered jetty.

  The proof has the shape of a lock's:

  1. `RecvMove` lists what a step can do, `recvMove_of_step` is its inversion;
  2. `Locked` says who holds the mutex of the handle: at most one call, and only between its lock and
     its unlock (`locked_reach`);
  3. `RecvBooks` says of each call what it has posted, by where it is (`InitPc.Posted`), and of the
     remembered jetty that some call has prefilled it (`Prefilled`): a call that takes the short way
     out has that one's posts behind it.  `recvBooks_reach` is the induction, and `recv_prefilled`
     reads it at the return;
  4. `Credit` counts for one jetty: nothing posted, a prefill in progress, or as many posts as were
     prefilled and consumed.  The prefill in progress is the holder's, so with 2 its steps are the
     only ones that count (`Credit.move`).

  `jfr_recv_not_prefilled` and `second_jetty_drifts` are the runs outside the conditions.
-/
import OsTransport.Transport

namespace OsTransport

open Transition

/-! ## The calls on one handle

Every call has its own place in `urma_recv_ctx_init`; the context, the lock and the queue are
shared. -/

/-- Where a receive work request goes.  The library has a function for each:
    `urma_post_jetty_recv_wr` and `urma_post_jfr_wr`. -/
inductive RecvEndpoint
  | jetty (jetty : Nat)
  | jfr (jfr : Nat)
  deriving DecidableEq, Repr

/-- The jetty if there is one, else the JFR; `none` is refused by `urma_recv_with_notify`. -/
def recvEndpoint (jfr jetty : Ptr) : Option RecvEndpoint :=
  match jetty, jfr with
  | some jetty, _ => some (.jetty jetty)
  | none, some jfr => some (.jfr jfr)
  | none, none => none

def UrmaRecvInfo.endpoint (recvInfo : UrmaRecvInfo) : Option RecvEndpoint :=
  recvEndpoint recvInfo.jfr recvInfo.jetty

/-- With a jetty given, the jetty is posted to. -/
theorem endpoint_of_jetty {recvInfo : UrmaRecvInfo} {jetty : Nat}
    (h : recvInfo.jetty = some jetty) : recvInfo.endpoint = some (.jetty jetty) := by
  simp only [UrmaRecvInfo.endpoint, recvEndpoint, h]

/-- Where `urma_recv_ctx_init` of a call is.  Each constructor is a place between two steps that
    other threads may come in at. -/
inductive InitPc
  /-- Not called yet. -/
  | fresh
  /-- About to compare the jetties without the lock. -/
  | checking
  /-- They differed; about to take the lock and to compare again. -/
  | locking
  /-- In the loop, with the lock. -/
  | posting (i : Nat)
  /-- Behind the loop, with the lock. -/
  | leaving (ret : UrmaStatus)
  | returned (ret : UrmaStatus)
  deriving DecidableEq, Repr

/-- A call of `os_transport_recv` that has reached `urma_recv_ctx_init`. -/
structure RecvInit where
  recvInfo : UrmaRecvInfo
  pc : InitPc

/-- A receive work request that was posted by a call, or (`none`) for a completion.  The status is
    the library's answer, so a post that failed is in the list too. -/
structure RecvPost where
  call : Option Nat
  endpoint : RecvEndpoint
  status : UrmaStatus
  deriving DecidableEq, Repr

/-- The receive side of a handle.  `posts` and `handled` are history variables: the posts, oldest
    first, and the jetties the handled receive completions came from.  No step reads these two. -/
structure RecvHandle where
  ctx : UrmaRecvCtx
  lock : Option Nat
  calls : Nat → RecvInit
  posts : List RecvPost
  handled : List Nat

inductive RecvAction
  /-- `os_transport_recv` reaches `urma_recv_ctx_init`. -/
  | call (q : Nat) (recvInfo : UrmaRecvInfo)
  /-- The next step of call `q`; the status of its post. -/
  | step (q : Nat) (status : UrmaStatus)
  /-- `os_transport_wake_up_task` with a receive completion of the jetty `origin`. -/
  | completion (origin : Nat) (status : UrmaStatus)
  deriving DecidableEq, Repr

/-- The number of posts of a prefill.  The product is one of 32 bits, as in the source. -/
def UrmaRecvCtx.prefillCount (ctx : UrmaRecvCtx) : Nat :=
  (ctx.recvQueueCapacity * Transport.rqePrefillMultipleDuplex).toNat

namespace RecvHandle

/-- After `os_transport_init`. -/
def start (recvQueueCapacity : BitVec 32) : RecvHandle where
  ctx := ⟨recvQueueCapacity, none⟩
  lock := none
  calls _ := ⟨⟨none, none, none, ⟨none, none, 0#64⟩, 0#64⟩, .fresh⟩
  posts := []
  handled := []

def setPc (s : RecvHandle) (q : Nat) (pc : InitPc) : RecvHandle :=
  { s with calls := Function.update s.calls q { s.calls q with pc } }

/-- `urma_recv_with_notify`. -/
def recvWithNotify (s : RecvHandle) (call : Option Nat) (jfr jetty : Ptr) (status : UrmaStatus) :
    RecvHandle × UrmaStatus :=
  match recvEndpoint jfr jetty with
  | none => (s, urmaFail)
  | some endpoint => ({ s with posts := s.posts ++ [⟨call, endpoint, status⟩] }, status)

/-- The next step of `urma_recv_ctx_init` in call `q`. -/
def initStep (s : RecvHandle) (q : Nat) (status : UrmaStatus) : Option RecvHandle :=
  let recvInfo := (s.calls q).recvInfo
  match (s.calls q).pc with
  | .fresh => none
  | .checking =>
    if s.ctx.jetty = recvInfo.jetty then some (s.setPc q (.returned urmaSuccess))
    else some (s.setPc q .locking)
  | .locking =>
    if s.lock = none then
      if s.ctx.jetty ≠ recvInfo.jetty then some { s.setPc q (.posting 0) with lock := some q }
      else some (s.setPc q (.returned urmaSuccess))
    else none
  | .posting i =>
    if i < s.ctx.prefillCount then
      let (s, ret) := s.recvWithNotify (some q) recvInfo.jfr recvInfo.jetty status
      some (s.setPc q (if ret = urmaSuccess then .posting (i + 1) else .leaving ret))
    else some (s.setPc q (.leaving urmaSuccess))
  | .leaving ret =>
    let ctx := if ret = urmaSuccess ∨ ret = urmaEnomem then { s.ctx with jetty := recvInfo.jetty }
      else s.ctx
    some { s.setPc q (.returned ret) with ctx, lock := none }
  | .returned _ => none

/-- One step of the handle. -/
def step (s : RecvHandle) : RecvAction → Option RecvHandle
  | .call q recvInfo =>
    -- `validate_recv_input`
    if (s.calls q).pc = .fresh ∧ recvInfo.endpoint.isSome then
      some { s with calls := Function.update s.calls q ⟨recvInfo, .checking⟩ }
    else none
  | .step q status => s.initStep q status
  | .completion origin status =>
    let (s, _) := s.recvWithNotify none none s.ctx.jetty status
    some { s with handled := s.handled ++ [origin] }

/-- `os_transport_recv` of call `q` returns `0`. -/
def Accepted (s : RecvHandle) (q : Nat) : Prop :=
  ∃ ret, (s.calls q).pc = .returned ret ∧ (ret = urmaSuccess ∨ ret = urmaEnomem)

end RecvHandle

/-- All runs on a handle whose receive queues hold `recvQueueCapacity` chunks. -/
def recvSystem (recvQueueCapacity : BitVec 32) : System RecvHandle RecvAction :=
  .ofFun (· = RecvHandle.start recvQueueCapacity) RecvHandle.step

/-- A run on a handle may be evaluated. -/
theorem recvSystem_exec (capacity : BitVec 32) (okb : RecvHandle → RecvAction → Bool)
    {ok : RecvHandle → RecvAction → Prop} (hok : ∀ s a, okb s a = true → ok s a)
    (as : List RecvAction) (P : RecvHandle → Bool)
    (h : (exec okb RecvHandle.step (RecvHandle.start capacity) as).any P = true) :
    ∃ s, (recvSystem capacity).Reach ok s ∧ P s = true :=
  System.Reach.of_exec (· = RecvHandle.start capacity) okb hok rfl as P h

/-! ## What a step can do

The step function as rules. -/

/-- The steps of the handle. -/
inductive RecvMove (s : RecvHandle) : RecvAction → RecvHandle → Prop
  | call {q recvInfo} (hc : (s.calls q).pc = .fresh) (he : recvInfo.endpoint.isSome = true) :
      RecvMove s (.call q recvInfo)
        { s with calls := Function.update s.calls q ⟨recvInfo, .checking⟩ }
  | skip {q status} (hc : (s.calls q).pc = .checking ∨ (s.calls q).pc = .locking)
      (heq : s.ctx.jetty = (s.calls q).recvInfo.jetty) :
      RecvMove s (.step q status) (s.setPc q (.returned urmaSuccess))
  | differ {q status} (hc : (s.calls q).pc = .checking)
      (hne : s.ctx.jetty ≠ (s.calls q).recvInfo.jetty) :
      RecvMove s (.step q status) (s.setPc q .locking)
  | lock {q status} (hc : (s.calls q).pc = .locking) (hl : s.lock = none)
      (hne : s.ctx.jetty ≠ (s.calls q).recvInfo.jetty) :
      RecvMove s (.step q status) { s.setPc q (.posting 0) with lock := some q }
  | post {q status i s₁ ret} (hc : (s.calls q).pc = .posting i) (hi : i < s.ctx.prefillCount)
      (hpost : s.recvWithNotify (some q) (s.calls q).recvInfo.jfr (s.calls q).recvInfo.jetty status
        = (s₁, ret)) :
      RecvMove s (.step q status)
        (s₁.setPc q (if ret = urmaSuccess then .posting (i + 1) else .leaving ret))
  | done {q status i} (hc : (s.calls q).pc = .posting i) (hi : ¬ i < s.ctx.prefillCount) :
      RecvMove s (.step q status) (s.setPc q (.leaving urmaSuccess))
  | leave {q status ret} (hc : (s.calls q).pc = .leaving ret) :
      RecvMove s (.step q status) { s.setPc q (.returned ret) with
        ctx := if ret = urmaSuccess ∨ ret = urmaEnomem
          then { s.ctx with jetty := (s.calls q).recvInfo.jetty } else s.ctx
        lock := none }
  | completion {origin status s₁ ret}
      (hpost : s.recvWithNotify none none s.ctx.jetty status = (s₁, ret)) :
      RecvMove s (.completion origin status) { s₁ with handled := s₁.handled ++ [origin] }

section Moves

variable {s s' : RecvHandle} {a : RecvAction} {q : Nat}

/-- Every step of the handle is one of these. -/
theorem recvMove_of_step (h : s.step a = some s') : RecvMove s a s' := by
  cases a with
  | call q recvInfo =>
    simp only [RecvHandle.step, Option.ite_none_right_eq_some, Option.some.injEq] at h
    obtain ⟨⟨hc, he⟩, rfl⟩ := h
    exact .call hc he
  | completion origin status =>
    simp only [RecvHandle.step, Option.some.injEq] at h
    subst h
    exact .completion rfl
  | step q status =>
    simp only [RecvHandle.step, RecvHandle.initStep] at h
    split at h
    · cases h
    · rename_i hc
      split at h <;> rename_i hj <;> cases h
      · exact .skip (.inl hc) hj
      · exact .differ hc hj
    · rename_i hc
      split at h
      · rename_i hl
        split at h <;> rename_i hj <;> cases h
        · exact .lock hc hl hj
        · exact .skip (.inr hc) (not_not.mp hj)
      · cases h
    · rename_i i hc
      split at h <;> rename_i hi <;> cases h
      · exact .post hc hi rfl
      · exact .done hc hi
    · rename_i ret hc
      cases h
      exact .leave hc
    · cases h

theorem setPc_calls_self (s : RecvHandle) (q : Nat) (pc : InitPc) :
    (s.setPc q pc).calls q = ⟨(s.calls q).recvInfo, pc⟩ := Function.update_self ..

theorem setPc_calls_of_ne (s : RecvHandle) {q q' : Nat} (pc : InitPc) (hq : q' ≠ q) :
    (s.setPc q pc).calls q' = s.calls q' := Function.update_of_ne hq ..

/-- A post has no endpoint and fails, or is made with what the library answers.  In the first case
    it leaves no trace. -/
theorem recvWithNotify_cases {call : Option Nat} {jfr jetty : Ptr} {status ret : UrmaStatus}
    {s₁ : RecvHandle} (h : s.recvWithNotify call jfr jetty status = (s₁, ret)) :
    recvEndpoint jfr jetty = none ∧ s₁ = s ∧ ret = urmaFail ∨
    ∃ endpoint, recvEndpoint jfr jetty = some endpoint ∧
      s₁ = { s with posts := s.posts ++ [⟨call, endpoint, status⟩] } ∧ ret = status := by
  unfold RecvHandle.recvWithNotify at h
  split at h <;> rename_i he <;> cases h
  · exact .inl ⟨he, rfl, rfl⟩
  · exact .inr ⟨_, he, rfl, rfl⟩

/-- The capacity never changes. -/
theorem RecvMove.capacity (hm : RecvMove s a s') :
    s'.ctx.recvQueueCapacity = s.ctx.recvQueueCapacity := by
  cases hm with
  | post _ _ hpost | completion hpost =>
    rcases recvWithNotify_cases hpost with ⟨-, rfl, -⟩ | ⟨_, -, rfl, -⟩ <;> rfl
  | leave =>
    show (if _ then _ else _ : UrmaRecvCtx).recvQueueCapacity = _
    split <;> rfl
  | _ => rfl

/-- The capacity of the queue is the one of the start. -/
theorem capacity_reach {capacity : BitVec 32} {ok : RecvHandle → RecvAction → Prop}
    (h : (recvSystem capacity).Reach ok s) : s.ctx.recvQueueCapacity = capacity := by
  refine h.invariant (I := fun s => s.ctx.recvQueueCapacity = capacity) ?_ ?_
  · rintro s rfl
    rfl
  · intro s a s' _ hI _ hs
    exact (recvMove_of_step hs).capacity.trans hI

/-! ## The lock

Who is inside holds it. -/

/-- Between taking the lock and leaving it. -/
def InitPc.holds : InitPc → Bool
  | .posting _ => true
  | .leaving _ => true
  | _ => false

/-- The calls inside the locked section are the holder of the lock.  So at most one call posts a
    prefill at a time.  The comparison before the lock is outside of it. -/
def RecvHandle.Locked (s : RecvHandle) : Prop :=
  ∀ q, (s.calls q).pc.holds = true ↔ s.lock = some q

/-- A call that neither takes nor gives the lock. -/
theorem RecvHandle.Locked.setPc {pc : InitPc} (h : s.Locked)
    (hpc : pc.holds = (s.calls q).pc.holds) : (s.setPc q pc).Locked := by
  intro q'
  by_cases hq : q' = q
  · subst hq
    rw [setPc_calls_self, hpc]
    exact h q'
  · rw [setPc_calls_of_ne _ _ hq]
    exact h q'

/-- One step keeps the lock with the call that holds it.  Only `lock` takes it, and it needs it
    free; only `leave` gives it back, and it is the holder's step. -/
theorem RecvHandle.Locked.move (h : s.Locked) (hm : RecvMove s a s') : s'.Locked := by
  cases hm with
  | @call q recvInfo hc =>
    intro q'
    by_cases hq : q' = q
    · subst hq
      show ((Function.update s.calls q' _ q').pc.holds = true ↔ _)
      have hfresh := h q'
      rw [hc] at hfresh
      rw [Function.update_self]
      exact hfresh
    · show ((Function.update s.calls q _ q').pc.holds = true ↔ _)
      rw [Function.update_of_ne hq]
      exact h q'
  | skip hc => exact h.setPc (by rcases hc with hc | hc <;> rw [hc] <;> rfl)
  | differ hc | done hc => exact h.setPc (by rw [hc]; rfl)
  | @lock q status hc hl =>
    intro q'
    by_cases hq : q' = q
    · subst hq
      exact iff_of_true (by show ((s.setPc q' _).calls q').pc.holds = true; rw [setPc_calls_self]; rfl) rfl
    · have hno := h q'
      rw [hl] at hno
      show (((s.setPc q _).calls q').pc.holds = true ↔ some q = some q')
      rw [setPc_calls_of_ne _ _ hq]
      exact iff_of_false (fun hh => by cases hno.mp hh) fun he => hq (Option.some.inj he).symm
  | @post q _ _ _ _ hc _ hpost =>
    have h₁ : ∀ {s₁ : RecvHandle} {pc : InitPc}, s₁.calls = s.calls → s₁.lock = s.lock →
        pc.holds = true → (s₁.setPc q pc).Locked := by
      intro s₁ pc hcalls hlock hpc
      refine RecvHandle.Locked.setPc (fun q' => by rw [hcalls, hlock]; exact h q') ?_
      rw [hcalls, hc, hpc]
      rfl
    rcases recvWithNotify_cases hpost with ⟨-, rfl, -⟩ | ⟨_, -, rfl, -⟩ <;>
      exact h₁ rfl rfl (by split <;> rfl)
  | @leave q status ret hc =>
    intro q'
    have hq' : q' ≠ q → (s.calls q').pc.holds = false := by
      intro hq
      have hlock := (h q).mp (by rw [hc]; rfl)
      refine Bool.eq_false_iff.mpr fun hh => hq ?_
      rw [(h q').mp hh] at hlock
      exact Option.some.inj hlock
    show (((s.setPc q _).calls q').pc.holds = true ↔ none = some q')
    by_cases hq : q' = q
    · subst hq
      rw [setPc_calls_self]
      exact iff_of_false (by simp [InitPc.holds]) (by simp)
    · rw [setPc_calls_of_ne _ _ hq, hq' hq]
      exact iff_of_false (by simp) (by simp)
  | completion hpost =>
    rcases recvWithNotify_cases hpost with ⟨-, rfl, -⟩ | ⟨_, -, rfl, -⟩ <;> exact h

/-- In every run only the holder of the lock is inside. -/
theorem locked_reach {capacity : BitVec 32} {ok : RecvHandle → RecvAction → Prop}
    (h : (recvSystem capacity).Reach ok s) : s.Locked := by
  refine h.invariant ?_ ?_
  · rintro s rfl q
    exact iff_of_false (by simp [RecvHandle.start, InitPc.holds]) (by simp [RecvHandle.start])
  · intro s a s' _ hI _ hs
    exact hI.move (recvMove_of_step hs)

end Moves

/-! ## An undisturbed call

The steps of a call that nobody disturbs are `Transport.urmaRecvCtxInit`. -/

section Alone

variable {s : RecvHandle} {q : Nat}

/-- The loop, from its `i`-th iteration on.  By induction on the iterations that are left; the
    statuses are those the library will answer. -/
theorem prefill_alone {endpoint : RecvEndpoint} (statuses : List UrmaStatus) (k i : Nat)
    {s : RecvHandle} (hpc : (s.calls q).pc = .posting i) (hk : i + k = s.ctx.prefillCount)
    (he : (s.calls q).recvInfo.endpoint = some endpoint) :
    ∃ as s', exec (fun _ _ => true) RecvHandle.step s as = some s' ∧
      (s'.calls q).pc = .leaving (Transport.prefillLoop k statuses).1 ∧
      (s'.calls q).recvInfo = (s.calls q).recvInfo ∧ s'.ctx = s.ctx ∧
      s'.posts = s.posts ++ (Transport.prefillLoop k statuses).2.map (⟨some q, endpoint, ·⟩) := by
  induction k generalizing s i statuses with
  | zero =>
    have hstep : s.step (.step q urmaSuccess) = some (s.setPc q (.leaving urmaSuccess)) := by
      simp only [RecvHandle.step, RecvHandle.initStep, hpc]
      rw [if_neg (by omega)]
    refine ⟨[.step q urmaSuccess], s.setPc q (.leaving urmaSuccess), exec_cons _ rfl hstep,
      ?_, ?_, rfl, ?_⟩
    · rw [setPc_calls_self]
      rfl
    · rw [setPc_calls_self]
    · rw [Transport.prefillLoop, List.map_nil, List.append_nil]
      rfl
  | succ k ih =>
    generalize hst : statuses.headD urmaSuccess = st
    have hstep : s.step (.step q st) = some
        (RecvHandle.setPc { s with posts := s.posts ++ [⟨some q, endpoint, st⟩] } q
          (if st = urmaSuccess then .posting (i + 1) else .leaving st)) := by
      have he' : recvEndpoint (s.calls q).recvInfo.jfr (s.calls q).recvInfo.jetty = some endpoint := he
      simp only [RecvHandle.step, RecvHandle.initStep, hpc, RecvHandle.recvWithNotify, he']
      rw [if_pos (by omega)]
    by_cases hok : st = urmaSuccess
    · rw [if_pos hok] at hstep
      obtain ⟨as, s', hrun, hleave, hinfo, hctx, hposts⟩ := ih statuses.tail (i + 1)
        (s := RecvHandle.setPc { s with posts := s.posts ++ [⟨some q, endpoint, st⟩] } q
          (.posting (i + 1)))
        (by rw [setPc_calls_self]) (by show i + 1 + k = s.ctx.prefillCount; omega)
        (by rw [setPc_calls_self]; exact he)
      rw [setPc_calls_self] at hinfo
      have hloop : Transport.prefillLoop (k + 1) statuses
          = ((Transport.prefillLoop k statuses.tail).1,
            st :: (Transport.prefillLoop k statuses.tail).2) := by
        rw [Transport.prefillLoop, hst, hok]
        rfl
      refine ⟨.step q st :: as, s', (exec_cons _ rfl hstep).trans hrun, ?_, hinfo, hctx, ?_⟩
      · rw [hloop]
        exact hleave
      · rw [hloop, hposts]
        show (s.posts ++ [_]) ++ _ = s.posts ++ _
        rw [List.append_assoc]
        rfl
    · rw [if_neg hok] at hstep
      have hloop : Transport.prefillLoop (k + 1) statuses = (st, [st]) := by
        rw [Transport.prefillLoop, hst]
        exact if_pos hok
      refine ⟨[.step q st], RecvHandle.setPc
        { s with posts := s.posts ++ [⟨some q, endpoint, st⟩] } q (.leaving st),
        exec_cons _ rfl hstep, ?_, ?_, rfl, ?_⟩
      · rw [setPc_calls_self, hloop]
      · rw [setPc_calls_self]
      · rw [hloop]
        rfl

/-- What a call does from its first comparison to its return, if it is alone.  So the one step in
    which `Transport` models it is what the code does undisturbed. -/
theorem init_alone {endpoint : RecvEndpoint} (statuses : List UrmaStatus)
    (hpc : (s.calls q).pc = .checking) (hl : s.lock = none)
    (he : (s.calls q).recvInfo.endpoint = some endpoint) :
    ∃ (as : List RecvAction) (s' : RecvHandle) (ret : UrmaStatus) (posted : List UrmaStatus),
      exec (fun _ _ => true) RecvHandle.step s as = some s' ∧
      Transport.urmaRecvCtxInit s.ctx (s.calls q).recvInfo statuses
        = (ret, s'.ctx, posted.map (.recvPost (s.calls q).recvInfo.jfr (s.calls q).recvInfo.jetty)) ∧
      (s'.calls q).pc = .returned ret ∧ s'.posts = s.posts ++ posted.map (⟨some q, endpoint, ·⟩) := by
  by_cases hj : s.ctx.jetty = (s.calls q).recvInfo.jetty
  · have hstep : s.step (.step q urmaSuccess) = some (s.setPc q (.returned urmaSuccess)) := by
      simp only [RecvHandle.step, RecvHandle.initStep, hpc, if_pos hj]
    refine ⟨[.step q urmaSuccess], s.setPc q (.returned urmaSuccess), urmaSuccess, [],
      exec_cons _ rfl hstep, ?_, ?_, ?_⟩
    · rw [Transport.urmaRecvCtxInit, if_pos hj]
      rfl
    · rw [setPc_calls_self]
    · rw [List.map_nil, List.append_nil]
      rfl
  · have hcheck : s.step (.step q urmaSuccess) = some (s.setPc q .locking) := by
      simp only [RecvHandle.step, RecvHandle.initStep, hpc, if_neg hj]
    have hlock : (s.setPc q .locking).step (.step q urmaSuccess) = some
        { (s.setPc q .locking).setPc q (.posting 0) with lock := some q } := by
      simp only [RecvHandle.step, RecvHandle.initStep, setPc_calls_self]
      exact (if_pos hl).trans (if_pos hj)
    obtain ⟨as, s₁, hrun, hleave, hinfo, hctx, hposts⟩ := prefill_alone (q := q) statuses
      s.ctx.prefillCount 0 (s := { (s.setPc q .locking).setPc q (.posting 0) with lock := some q })
      (by show (((s.setPc q _).setPc q _).calls q).pc = _; rw [setPc_calls_self])
      (Nat.zero_add _)
      (by show (((s.setPc q _).setPc q _).calls q).recvInfo.endpoint = some endpoint
          rw [setPc_calls_self, setPc_calls_self]
          exact he)
    have hinfo' : (s₁.calls q).recvInfo = (s.calls q).recvInfo := by
      rw [hinfo]
      show (((s.setPc q _).setPc q _).calls q).recvInfo = _
      rw [setPc_calls_self, setPc_calls_self]
    have hctx' : s₁.ctx = s.ctx := hctx
    generalize hloop : Transport.prefillLoop s.ctx.prefillCount statuses = loop at hleave hposts
    obtain ⟨ret, posted⟩ := loop
    have hexit : s₁.step (.step q urmaSuccess) = some { s₁.setPc q (.returned ret) with
        ctx := if ret = urmaSuccess ∨ ret = urmaEnomem
          then { s.ctx with jetty := (s.calls q).recvInfo.jetty } else s.ctx
        lock := none } := by
      simp only [RecvHandle.step, RecvHandle.initStep, hleave, hinfo', hctx']
    refine ⟨.step q urmaSuccess :: .step q urmaSuccess :: (as ++ [.step q urmaSuccess]),
      { s₁.setPc q (.returned ret) with
        ctx := if ret = urmaSuccess ∨ ret = urmaEnomem
          then { s.ctx with jetty := (s.calls q).recvInfo.jetty } else s.ctx
        lock := none }, ret, posted, ?_, ?_, ?_, hposts⟩
    · rw [exec_cons _ rfl hcheck, exec_cons _ rfl hlock]
      exact exec_append hrun (exec_cons _ rfl hexit)
    · have hloop' : Transport.prefillLoop (s.ctx.recvQueueCapacity * Transport.rqePrefillMultipleDuplex).toNat
          statuses = (ret, posted) := hloop
      rw [Transport.urmaRecvCtxInit, if_neg hj, hloop']
    · show ((s₁.setPc q _).calls q).pc = _
      rw [setPc_calls_self]

/-- What a receive completion re-posts.  One work request to the remembered jetty, whatever jetty
    the completion came from; none if no jetty is remembered. -/
theorem add_alone (s : RecvHandle) (origin : Nat) (status : UrmaStatus) :
    ∃ s', s.step (.completion origin status) = some s' ∧ s'.ctx = s.ctx ∧
      s'.posts = s.posts ++ (s.ctx.jetty.toList.map fun jetty => ⟨none, .jetty jetty, status⟩) := by
  simp only [RecvHandle.step, RecvHandle.recvWithNotify, recvEndpoint]
  cases hj : s.ctx.jetty with
  | none => exact ⟨_, rfl, rfl, (List.append_nil _).symm⟩
  | some jetty => exact ⟨_, rfl, rfl, rfl⟩

end Alone

/-! ## What stands behind an accepted call

A remembered jetty was prefilled by the call that made it remembered; so was the jetty of a call
that has found it remembered. -/

/-- The posts of call `q`. -/
def RecvHandle.postsOf (s : RecvHandle) (q : Nat) : List RecvPost :=
  s.posts.filter fun p => p.call == some q

/-- A call that has returned posted to `endpoint` until `n` posts had succeeded or the queue was
    full. -/
def RecvHandle.Prefilled (s : RecvHandle) (n : Nat) (endpoint : Option RecvEndpoint) : Prop :=
  ∃ q ret, (s.calls q).pc = .returned ret ∧ (∀ p ∈ s.postsOf q, some p.endpoint = endpoint) ∧
    ((s.postsOf q).map RecvPost.status = List.replicate n urmaSuccess ∨
      ∃ k, (s.postsOf q).map RecvPost.status = List.replicate k urmaSuccess ++ [urmaEnomem])

/-- The posts of a loop that ended with `ret`.  The prefill stops at the first post that fails,
    whatever the reason. -/
def Filled (n : Nat) (ret : UrmaStatus) (statuses : List UrmaStatus) : Prop :=
  ret = urmaSuccess ∧ statuses = List.replicate n urmaSuccess ∨
    ret ≠ urmaSuccess ∧ ∃ k, statuses = List.replicate k urmaSuccess ++ [ret]

/-- What a call has posted, by where it is.  A call that has returned without the loop has posted
    nothing. -/
def InitPc.Posted (n : Nat) : InitPc → List UrmaStatus → Prop
  | .posting i, statuses => i ≤ n ∧ statuses = List.replicate i urmaSuccess
  | .leaving ret, statuses => Filled n ret statuses
  | .returned ret, statuses => statuses = [] ∧ ret = urmaSuccess ∨ Filled n ret statuses
  | _, statuses => statuses = []

structure RecvBooks (n : Nat) (s : RecvHandle) : Prop where
  valid : ∀ q, (s.calls q).pc ≠ .fresh → (s.calls q).recvInfo.endpoint.isSome = true
  target : ∀ q, ∀ p ∈ s.postsOf q, some p.endpoint = (s.calls q).recvInfo.endpoint
  posted : ∀ q, (s.calls q).pc.Posted n ((s.postsOf q).map RecvPost.status)
  remembered : ∀ jetty, s.ctx.jetty = some jetty → s.Prefilled n (some (.jetty jetty))
  accepted : ∀ q, s.Accepted q → s.Prefilled n (s.calls q).recvInfo.endpoint

/-- No call compares a `NULL` jetty with a remembered `NULL`. -/
def ComparesJetty (s : RecvHandle) : RecvAction → Prop
  | .step q _ => (s.calls q).pc = .checking ∨ (s.calls q).pc = .locking →
      (s.calls q).recvInfo.jetty ≠ none ∨ s.ctx.jetty ≠ none
  | _ => True

section Books

variable {s s' : RecvHandle} {a : RecvAction} {q : Nat} {n : Nat}

/-- A call that has returned stays as it is. -/
theorem RecvMove.returned {ret : UrmaStatus} (hm : RecvMove s a s')
    (hq : (s.calls q).pc = .returned ret) : s'.calls q = s.calls q ∧ s'.postsOf q = s.postsOf q := by
  have hne : ∀ {q' pc}, (s.calls q').pc = pc → (∀ r, pc ≠ .returned r) → q ≠ q' := by
    rintro q' pc hc hpc rfl
    exact hpc ret (hc.symm.trans hq)
  have hkeep : ∀ {q'}, q ≠ q' → ∀ pc, (s.setPc q' pc).calls q = s.calls q :=
    fun hqq pc => setPc_calls_of_ne _ _ hqq
  cases hm with
  | call hc => exact ⟨Function.update_of_ne (hne hc (by simp)) .., rfl⟩
  | @skip q' _ hc =>
    have hqq : q ≠ q' := by
      rcases hc with hc | hc <;> exact hne hc (by simp)
    exact ⟨hkeep hqq _, rfl⟩
  | differ hc | lock hc | done hc | leave hc => exact ⟨hkeep (hne hc (by simp)) _, rfl⟩
  | @post q' _ _ _ _ hc _ hpost =>
    have hqq : q ≠ q' := hne hc (by simp)
    rcases recvWithNotify_cases hpost with ⟨-, rfl, -⟩ | ⟨_, -, rfl, -⟩
    · exact ⟨hkeep hqq _, rfl⟩
    · refine ⟨setPc_calls_of_ne _ _ hqq, ?_⟩
      show (s.posts ++ [_]).filter _ = s.posts.filter _
      rw [List.filter_append, List.filter_cons_of_neg, List.filter_nil, List.append_nil]
      simpa using hqq.symm
  | completion hpost =>
    rcases recvWithNotify_cases hpost with ⟨-, rfl, -⟩ | ⟨_, -, rfl, -⟩
    · exact ⟨rfl, rfl⟩
    · refine ⟨rfl, ?_⟩
      show (s.posts ++ [_]).filter _ = s.posts.filter _
      rw [List.filter_append]
      simp

/-- What has been posted stays posted. -/
theorem RecvHandle.Prefilled.move {endpoint : Option RecvEndpoint} (h : s.Prefilled n endpoint)
    (hm : RecvMove s a s') : s'.Prefilled n endpoint := by
  obtain ⟨q, ret, hq, htarget, hposted⟩ := h
  obtain ⟨hcall, hposts⟩ := hm.returned hq
  exact ⟨q, ret, by rw [hcall, hq], by rwa [hposts], by rwa [hposts]⟩

/-- A call that ends with `0` after its loop has filled its endpoint. -/
theorem prefilled_of_posted {ret : UrmaStatus} (hq : (s.calls q).pc = .returned ret)
    (htarget : ∀ p ∈ s.postsOf q, some p.endpoint = (s.calls q).recvInfo.endpoint)
    (hposted : Filled n ret ((s.postsOf q).map RecvPost.status))
    (hret : ret = urmaSuccess ∨ ret = urmaEnomem) :
    s.Prefilled n (s.calls q).recvInfo.endpoint := by
  refine ⟨q, ret, hq, htarget, ?_⟩
  rcases hposted with ⟨-, hall⟩ | ⟨hne, k, hall⟩
  · exact .inl hall
  · rcases hret with rfl | rfl
    · exact absurd rfl hne
    · exact .inr ⟨k, hall⟩

/-- A step of call `q` that posts nothing. -/
theorem RecvBooks.setPc {pc : InitPc} {ctx : UrmaRecvCtx} {lock : Option Nat}
    (h : RecvBooks n s) (hm : RecvMove s a { s.setPc q pc with ctx, lock })
    (hfresh : (s.calls q).pc ≠ .fresh)
    (hposted : pc.Posted n ((s.postsOf q).map RecvPost.status))
    (hctx : ∀ jetty, ctx.jetty = some jetty → s.ctx.jetty = some jetty ∨
      RecvHandle.Prefilled { s.setPc q pc with ctx, lock } n (some (.jetty jetty)))
    (haccepted : ∀ ret, pc = .returned ret → ret = urmaSuccess ∨ ret = urmaEnomem →
      RecvHandle.Prefilled { s.setPc q pc with ctx, lock } n (s.calls q).recvInfo.endpoint) :
    RecvBooks n { s.setPc q pc with ctx, lock } := by
  have hcalls : ∀ q', ((s.setPc q pc).calls q').recvInfo = (s.calls q').recvInfo := by
    intro q'
    by_cases hq : q' = q
    · rw [hq, setPc_calls_self]
    · rw [setPc_calls_of_ne _ _ hq]
  refine ⟨fun q' hf => ?_, fun q' p hp => ?_, fun q' => ?_, fun jetty hj => ?_, fun q' hq' => ?_⟩
  · show ((s.setPc q pc).calls q').recvInfo.endpoint.isSome = true
    rw [hcalls]
    by_cases hq : q' = q
    · rw [hq]
      exact h.valid q hfresh
    · refine h.valid q' ?_
      have hf' : ((s.setPc q pc).calls q').pc ≠ .fresh := hf
      rwa [setPc_calls_of_ne _ _ hq] at hf'
  · show _ = ((s.setPc q pc).calls q').recvInfo.endpoint
    rw [hcalls]
    exact h.target q' p hp
  · show ((s.setPc q pc).calls q').pc.Posted n _
    by_cases hq : q' = q
    · rw [hq, setPc_calls_self]
      exact hposted
    · rw [setPc_calls_of_ne _ _ hq]
      exact h.posted q'
  · rcases hctx jetty hj with hold | hnew
    · exact (h.remembered jetty hold).move hm
    · exact hnew
  · show RecvHandle.Prefilled _ n ((s.setPc q pc).calls q').recvInfo.endpoint
    rw [hcalls]
    obtain ⟨ret, hret, hok⟩ := hq'
    have hret' : ((s.setPc q pc).calls q').pc = .returned ret := hret
    by_cases hq : q' = q
    · rw [hq] at hret' ⊢
      rw [setPc_calls_self] at hret'
      exact haccepted ret hret' hok
    · rw [setPc_calls_of_ne _ _ hq] at hret'
      exact (h.accepted q' ⟨ret, hret', hok⟩).move hm

/-- A post of call `q` to its endpoint. -/
theorem RecvBooks.post {endpoint : RecvEndpoint} {status : UrmaStatus} {i : Nat}
    (h : RecvBooks n s) (hm : RecvMove s a (RecvHandle.setPc
      { s with posts := s.posts ++ [⟨some q, endpoint, status⟩] } q
      (if status = urmaSuccess then .posting (i + 1) else .leaving status)))
    (hc : (s.calls q).pc = .posting i) (hi : i < n)
    (he : (s.calls q).recvInfo.endpoint = some endpoint) :
    RecvBooks n (RecvHandle.setPc
      { s with posts := s.posts ++ [⟨some q, endpoint, status⟩] } q
      (if status = urmaSuccess then .posting (i + 1) else .leaving status)) := by
  generalize hpc : (if status = urmaSuccess then InitPc.posting (i + 1) else .leaving status) = pc
    at hm ⊢
  have hself : RecvHandle.postsOf (RecvHandle.setPc
      { s with posts := s.posts ++ [⟨some q, endpoint, status⟩] } q pc) q
      = s.postsOf q ++ [⟨some q, endpoint, status⟩] := by
    show (s.posts ++ [_]).filter _ = s.posts.filter _ ++ _
    rw [List.filter_append, List.filter_cons_of_pos (by simp), List.filter_nil]
  have hother : ∀ q', q' ≠ q → RecvHandle.postsOf (RecvHandle.setPc
      { s with posts := s.posts ++ [⟨some q, endpoint, status⟩] } q pc) q' = s.postsOf q' := by
    intro q' hq
    show (s.posts ++ [_]).filter _ = s.posts.filter _
    rw [List.filter_append, List.filter_cons_of_neg, List.filter_nil, List.append_nil]
    simpa using hq.symm
  refine ⟨fun q' hf => ?_, fun q' p hp => ?_, fun q' => ?_,
    fun jetty hj => (h.remembered jetty hj).move hm, fun q' hq' => ?_⟩
  · by_cases hq : q' = q
    · rw [hq, setPc_calls_self]
      exact h.valid q (by rw [hc]; simp)
    · rw [setPc_calls_of_ne _ _ hq] at hf ⊢
      exact h.valid q' hf
  · by_cases hq : q' = q
    · rw [hq, hself] at hp
      rw [hq, setPc_calls_self]
      rcases List.mem_append.mp hp with hp | hp
      · exact h.target q p hp
      · rw [List.mem_singleton.mp hp]
        exact he.symm
    · rw [hother q' hq] at hp
      rw [setPc_calls_of_ne _ _ hq]
      exact h.target q' p hp
  · by_cases hq : q' = q
    · rw [hq, hself, setPc_calls_self, List.map_append]
      have hposted := h.posted q
      rw [hc] at hposted
      obtain ⟨-, hold⟩ := hposted
      rw [hold, ← hpc]
      split
      · rename_i hok
        rw [hok]
        exact ⟨hi, List.replicate_succ'.symm⟩
      · rename_i hne
        exact .inr ⟨hne, i, rfl⟩
    · rw [hother q' hq, setPc_calls_of_ne _ _ hq]
      exact h.posted q'
  · obtain ⟨ret, hret, hok⟩ := hq'
    by_cases hq : q' = q
    · rw [hq, setPc_calls_self, ← hpc] at hret
      split at hret <;> cases hret
    · rw [setPc_calls_of_ne _ _ hq] at hret ⊢
      exact (h.accepted q' ⟨ret, hret, hok⟩).move hm

/-- The books of a call that is about to begin. -/
theorem RecvBooks.call {recvInfo : UrmaRecvInfo} (h : RecvBooks n s)
    (hm : RecvMove s a { s with calls := Function.update s.calls q ⟨recvInfo, .checking⟩ })
    (hc : (s.calls q).pc = .fresh) (he : recvInfo.endpoint.isSome = true) :
    RecvBooks n { s with calls := Function.update s.calls q ⟨recvInfo, .checking⟩ } := by
  have hnil : s.postsOf q = [] := by
    have hposted := h.posted q
    rw [hc] at hposted
    exact List.map_eq_nil_iff.mp hposted
  refine ⟨fun q' hf => ?_, fun q' p hp => ?_, fun q' => ?_,
    fun jetty hj => (h.remembered jetty hj).move hm, fun q' hq' => ?_⟩
  · show (Function.update s.calls q _ q').recvInfo.endpoint.isSome = true
    by_cases hq : q' = q
    · rw [hq, Function.update_self]
      exact he
    · rw [Function.update_of_ne hq]
      refine h.valid q' ?_
      have hf' : (Function.update s.calls q ⟨recvInfo, .checking⟩ q').pc ≠ .fresh := hf
      rwa [Function.update_of_ne hq] at hf'
  · show _ = (Function.update s.calls q _ q').recvInfo.endpoint
    have hp' : p ∈ s.postsOf q' := hp
    by_cases hq : q' = q
    · rw [hq, hnil] at hp'
      cases hp'
    · rw [Function.update_of_ne hq]
      exact h.target q' p hp'
  · show (Function.update s.calls q _ q').pc.Posted n ((s.postsOf q').map RecvPost.status)
    by_cases hq : q' = q
    · rw [hq, hnil, Function.update_self]
      rfl
    · rw [Function.update_of_ne hq]
      exact h.posted q'
  · obtain ⟨ret, hret, hok⟩ := hq'
    have hret' : (Function.update s.calls q ⟨recvInfo, .checking⟩ q').pc = .returned ret := hret
    show RecvHandle.Prefilled _ n (Function.update s.calls q _ q').recvInfo.endpoint
    by_cases hq : q' = q
    · rw [hq, Function.update_self] at hret'
      cases hret'
    · rw [Function.update_of_ne hq] at hret' ⊢
      exact (h.accepted q' ⟨ret, hret', hok⟩).move hm

/-- The books of a call that leaves: what it reports it has posted. -/
theorem RecvBooks.leave {ret : UrmaStatus} (h : RecvBooks n s) (hc : (s.calls q).pc = .leaving ret)
    (hm : RecvMove s a { s.setPc q (.returned ret) with
      ctx := if ret = urmaSuccess ∨ ret = urmaEnomem
        then { s.ctx with jetty := (s.calls q).recvInfo.jetty } else s.ctx
      lock := none }) :
    RecvBooks n { s.setPc q (.returned ret) with
      ctx := if ret = urmaSuccess ∨ ret = urmaEnomem
        then { s.ctx with jetty := (s.calls q).recvInfo.jetty } else s.ctx
      lock := none } := by
  have hposted := h.posted q
  rw [hc] at hposted
  have hinfo : ((s.setPc q (.returned ret)).calls q).recvInfo = (s.calls q).recvInfo := by
    rw [setPc_calls_self]
  have hfill : ret = urmaSuccess ∨ ret = urmaEnomem →
      RecvHandle.Prefilled { s.setPc q (.returned ret) with
        ctx := if ret = urmaSuccess ∨ ret = urmaEnomem
          then { s.ctx with jetty := (s.calls q).recvInfo.jetty } else s.ctx
        lock := none } n ((s.setPc q (.returned ret)).calls q).recvInfo.endpoint := by
    refine fun hret => prefilled_of_posted ?_ ?_ hposted hret
    · show ((s.setPc q _).calls q).pc = _
      rw [setPc_calls_self]
    · show ∀ p ∈ s.postsOf q, _ = ((s.setPc q _).calls q).recvInfo.endpoint
      rw [hinfo]
      exact h.target q
  refine h.setPc hm (by rw [hc]; simp) (.inr hposted) (fun jetty hj => ?_) fun ret' hret' hok => ?_
  · split at hj
    · rename_i hok
      right
      rw [← endpoint_of_jetty hj, ← hinfo]
      exact hfill hok
    · exact .inl hj
  · cases hret'
    rw [← hinfo]
    exact hfill hok

/-- The work request a completion gives back belongs to no call. -/
theorem RecvBooks.completion {origin : Nat} {status ret : UrmaStatus} {s₁ : RecvHandle}
    (h : RecvBooks n s) (hpost : s.recvWithNotify none none s.ctx.jetty status = (s₁, ret))
    (hm : RecvMove s a { s₁ with handled := s₁.handled ++ [origin] }) :
    RecvBooks n { s₁ with handled := s₁.handled ++ [origin] } := by
  have hposts : ∀ q, RecvHandle.postsOf s₁ q = s.postsOf q ∧ s₁.calls = s.calls ∧ s₁.ctx = s.ctx := by
    intro q
    rcases recvWithNotify_cases hpost with ⟨-, rfl, -⟩ | ⟨endpoint, -, rfl, -⟩
    · exact ⟨rfl, rfl, rfl⟩
    · refine ⟨?_, rfl, rfl⟩
      show (s.posts ++ [_]).filter _ = s.posts.filter _
      rw [List.filter_append, List.filter_cons_of_neg (by simp), List.filter_nil, List.append_nil]
  have hcalls : s₁.calls = s.calls := (hposts 0).2.1
  have hctx : s₁.ctx = s.ctx := (hposts 0).2.2
  refine ⟨fun q hf => ?_, fun q p hp => ?_, fun q => ?_, fun jetty hj => ?_, fun q hq => ?_⟩
  · have hf' : (s₁.calls q).pc ≠ .fresh := hf
    show (s₁.calls q).recvInfo.endpoint.isSome = true
    rw [hcalls] at hf' ⊢
    exact h.valid q hf'
  · have hp' : p ∈ RecvHandle.postsOf s₁ q := hp
    show _ = (s₁.calls q).recvInfo.endpoint
    rw [(hposts q).1] at hp'
    rw [hcalls]
    exact h.target q p hp'
  · show (s₁.calls q).pc.Posted n ((RecvHandle.postsOf s₁ q).map RecvPost.status)
    rw [(hposts q).1, hcalls]
    exact h.posted q
  · exact (h.remembered jetty (by rw [← hctx]; exact hj)).move hm
  · obtain ⟨ret', hret, hok⟩ := hq
    have hret' : (s₁.calls q).pc = .returned ret' := hret
    have hinfo : (s₁.calls q).recvInfo = (s.calls q).recvInfo := by rw [hcalls]
    show RecvHandle.Prefilled _ n (s₁.calls q).recvInfo.endpoint
    rw [hcalls] at hret'
    rw [hinfo]
    exact (h.accepted q ⟨ret', hret', hok⟩).move hm

/-- One step keeps the books of the receive queue. -/
theorem RecvBooks.move (h : RecvBooks n s) (hn : s.ctx.prefillCount = n) (ha : ComparesJetty s a)
    (hm : RecvMove s a s') : RecvBooks n s' := by
  have hm' := hm
  cases hm with
  | call hc he => exact h.call hm' hc he
  | @skip q status hc heq =>
    have hposted := h.posted q
    have hnil : (s.postsOf q).map RecvPost.status = [] := by
      rcases hc with hc | hc <;> rw [hc] at hposted <;> exact hposted
    refine h.setPc hm' (by rcases hc with hc | hc <;> rw [hc] <;> simp) (.inl ⟨hnil, rfl⟩)
      (fun jetty hj => .inl hj) fun ret _ _ => ?_
    -- the comparison was not one of two `NULL`s, so the jetty is the remembered one
    have hsome : ∃ jetty, s.ctx.jetty = some jetty := by
      rcases ha hc with hne | hne
      · rw [← heq] at hne
        exact Option.ne_none_iff_exists'.mp hne
      · exact Option.ne_none_iff_exists'.mp hne
    obtain ⟨jetty, hj⟩ := hsome
    rw [endpoint_of_jetty (heq.symm.trans hj)]
    exact (h.remembered jetty hj).move hm'
  | @differ q status hc hne =>
    have hposted := h.posted q
    rw [hc] at hposted
    exact h.setPc hm' (by rw [hc]; simp) hposted (fun jetty hj => .inl hj) (by simp)
  | @lock q status hc hl hne =>
    have hposted := h.posted q
    rw [hc] at hposted
    exact h.setPc hm' (by rw [hc]; simp) ⟨Nat.zero_le _, hposted⟩ (fun jetty hj => .inl hj) (by simp)
  | @post q status i s₁ ret hc hi hpost =>
    rcases recvWithNotify_cases hpost with ⟨he, -, -⟩ | ⟨endpoint, he, rfl, rfl⟩
    · have hvalid := h.valid q (by rw [hc]; simp)
      rw [UrmaRecvInfo.endpoint, he] at hvalid
      cases hvalid
    · exact h.post hm' hc (hn ▸ hi) he
  | @done q status i hc hi =>
    have hposted := h.posted q
    rw [hc] at hposted
    obtain ⟨hle, hall⟩ := hposted
    have hin : i = n := by omega
    rw [hin] at hall
    exact h.setPc hm' (by rw [hc]; simp) (.inl ⟨rfl, hall⟩) (fun jetty hj => .inl hj) (by simp)
  | leave hc => exact h.leave hc hm'
  | completion hpost => exact h.completion hpost hm'

/-- In every run in which no `NULL` is compared with a remembered `NULL` the books are right. -/
theorem recvBooks_reach {capacity : BitVec 32} (h : (recvSystem capacity).Reach ComparesJetty s) :
    RecvBooks (UrmaRecvCtx.prefillCount ⟨capacity, none⟩) s := by
  refine h.invariant ?_ ?_
  · rintro s rfl
    refine ⟨fun q hf => absurd rfl hf, fun q p hp => (by cases hp), fun q => rfl,
      fun jetty hj => (by cases hj), ?_⟩
    rintro q ⟨ret, hret, -⟩
    cases hret
  · intro s a s' hr hI ha hs
    refine hI.move ?_ ha (recvMove_of_step hs)
    rw [UrmaRecvCtx.prefillCount, capacity_reach hr]
    rfl

/-- **An accepted receive has work requests behind it.**  When a call of `os_transport_recv` has
    returned `0`, it or an earlier call posted to its endpoint until `recv_queue_capacity` times
    `RQE_PREFILL_MULTIPLE_DUPLEX` posts had succeeded or the queue was full. -/
theorem recv_prefilled {capacity : BitVec 32} (hcap : 1 ≤ capacity.toNat ∧ capacity.toNat < 2 ^ 30)
    (h : (recvSystem capacity).Reach ComparesJetty s) (hq : s.Accepted q) :
    s.Prefilled (capacity.toNat * 4) (s.calls q).recvInfo.endpoint := by
  have hn : UrmaRecvCtx.prefillCount ⟨capacity, none⟩ = capacity.toNat * 4 := by
    show (capacity * 4#32).toNat = _
    rw [BitVec.toNat_mul, Nat.mod_eq_of_lt (by simp; omega)]
    rfl
  rw [← hn]
  exact (recvBooks_reach h).accepted q hq

end Books

/-- A call with this endpoint, taken to its end. -/
def runInit (q : Nat) (jfr jetty : Ptr) (steps : Nat) : List RecvAction :=
  .call q ⟨jfr, jetty, none, ⟨jfr, jetty, 0#64⟩, 7#64⟩ :: List.replicate steps (.step q urmaSuccess)

def acceptedb (s : RecvHandle) (q : Nat) : Bool := (s.calls q).pc == .returned urmaSuccess

/-- The test that a call's prefill was accepted. -/
theorem accepted_of_acceptedb {s : RecvHandle} {q : Nat} (h : acceptedb s q = true) : s.Accepted q :=
  ⟨urmaSuccess, beq_iff_eq.mp h, .inl rfl⟩

def jettyGiven (s : RecvHandle) : RecvAction → Bool
  | .step q _ => (s.calls q).recvInfo.jetty.isSome
  | _ => true

/-- Where every call names its jetty, no `NULL` is compared with a remembered `NULL`. -/
theorem comparesJetty_of_given {s : RecvHandle} {a : RecvAction} (h : jettyGiven s a = true) :
    ComparesJetty s a := by
  cases a with
  | step q status =>
    intro _
    exact .inl (Option.isSome_iff_ne_none.mp h)
  | call | completion => trivial

/-- With a jetty, capacity 1 is prefilled with four work requests. -/
theorem recv_prefilled_jetty : ∃ s, (recvSystem 1#32).Reach ComparesJetty s ∧
    s.Prefilled (1 * 4) (s.calls 0).recvInfo.endpoint := by
  obtain ⟨s, hr, hP⟩ := recvSystem_exec 1#32 jettyGiven (fun _ _ => comparesJetty_of_given)
    (runInit 0 none (some 2) 8) (fun s => acceptedb s 0) (by decide +kernel)
  exact ⟨s, hr, recv_prefilled (by decide) hr (accepted_of_acceptedb hP)⟩

/-- A call with a JFR alone compares `NULL` with the `NULL` of a fresh handle: it returns `0` and
    nothing was posted. -/
theorem jfr_recv_not_prefilled : ¬ ∀ (s : RecvHandle) (q : Nat),
    (recvSystem 1#32).Reach (fun _ _ => True) s → s.Accepted q →
    s.Prefilled (1 * 4) (s.calls q).recvInfo.endpoint := by
  intro hall
  obtain ⟨s, hr, hP⟩ := recvSystem_exec 1#32 (fun _ _ => true) (fun _ _ _ => trivial)
    (runInit 0 (some 3) none 1) (fun s => acceptedb s 0 && s.posts.isEmpty) (by decide +kernel)
  rw [Bool.and_eq_true, List.isEmpty_iff] at hP
  obtain ⟨hq, hnil⟩ := hP
  obtain ⟨q, ret, -, -, hposts⟩ := hall s 0 hr (accepted_of_acceptedb hq)
  have hof : s.postsOf q = [] := by
    rw [RecvHandle.postsOf, hnil]
    rfl
  rw [hof] at hposts
  rcases hposts with hposts | ⟨k, hposts⟩
  · cases hposts
  · exact absurd hposts.symm (by simp)

/-! ## The credit of a jetty

Posts against completions: what is ahead is always what the prefill has put there. -/

/-- The receive work requests that were posted to a jetty. -/
def RecvHandle.credits (s : RecvHandle) (jetty : Nat) : Nat :=
  s.posts.countP fun p => p.endpoint == .jetty jetty && p.status == urmaSuccess

/-- Every post succeeds, and a completion has consumed a work request of its jetty. -/
def PostsSucceed (s : RecvHandle) : RecvAction → Prop
  | .step _ status => status = urmaSuccess
  | .completion origin status =>
    status = urmaSuccess ∧ s.handled.count origin < s.credits origin
  | _ => True

/-- A call compares its jetty with that jetty or with the `NULL` of a fresh handle, and a completion
    that is handled comes from the remembered jetty. -/
def OneJetty (s : RecvHandle) : RecvAction → Prop
  | .step q _ => (s.calls q).pc = .checking ∨ (s.calls q).pc = .locking →
      s.ctx.jetty = none ∨ s.ctx.jetty = (s.calls q).recvInfo.jetty
  | .completion origin _ => s.ctx.jetty = some origin
  | _ => True

/-- How far the only prefill is.  While it goes on the handle remembers no jetty, so the condition
    admits no completion. -/
inductive Credit (n : Nat) (s : RecvHandle) : Prop
  | empty (hj : s.ctx.jetty = none) (hl : s.lock = none) (hp : s.posts = []) (hh : s.handled = [])
  | filling {q jetty i} (hj : s.ctx.jetty = none) (hl : s.lock = some q)
      (hpc : (s.calls q).pc = .posting i ∧ i ≤ n ∨ (s.calls q).pc = .leaving urmaSuccess ∧ i = n)
      (hq : (s.calls q).recvInfo.jetty = some jetty)
      (hp : s.posts = List.replicate i ⟨some q, .jetty jetty, urmaSuccess⟩) (hh : s.handled = [])
  | full {jetty} (hj : s.ctx.jetty = some jetty) (hl : s.lock = none)
      (hcount : s.credits jetty = s.handled.count jetty + n)

/-- A call that has returned had the remembered jetty. -/
def RecvHandle.ReturnedOwn (s : RecvHandle) : Prop :=
  ∀ q ret jetty, (s.calls q).pc = .returned ret → (s.calls q).recvInfo.jetty = some jetty →
    s.ctx.jetty = some jetty

section Credits

variable {s s' : RecvHandle} {a : RecvAction} {q : Nat} {n : Nat}

/-- A step of a call that does not hold the lock. -/
theorem Credit.congr (h : Credit n s) (hctx : s'.ctx = s.ctx) (hl : s'.lock = s.lock)
    (hcalls : ∀ q, s.lock = some q → s'.calls q = s.calls q) (hp : s'.posts = s.posts)
    (hh : s'.handled = s.handled) : Credit n s' := by
  cases h with
  | empty hj hl₀ hp₀ hh₀ => exact .empty (by rwa [hctx]) (by rwa [hl]) (by rwa [hp]) (by rwa [hh])
  | filling hj hl₀ hpc hq hp₀ hh₀ =>
    exact .filling (by rwa [hctx]) (by rwa [hl]) (by rwa [hcalls _ hl₀]) (by rwa [hcalls _ hl₀])
      (by rwa [hp]) (by rwa [hh])
  | full hj hl₀ hcount =>
    exact .full (by rwa [hctx]) (by rwa [hl]) (by rwa [RecvHandle.credits, hp, hh])

/-- The holder of the lock is the one that prefills. -/
theorem Credit.of_holder (h : Credit n s) (hlocked : s.Locked) (hq : (s.calls q).pc.holds = true) :
    ∃ jetty i, s.ctx.jetty = none ∧ (s.calls q).recvInfo.jetty = some jetty ∧
      ((s.calls q).pc = .posting i ∧ i ≤ n ∨ (s.calls q).pc = .leaving urmaSuccess ∧ i = n) ∧
      s.posts = List.replicate i ⟨some q, .jetty jetty, urmaSuccess⟩ ∧ s.handled = [] := by
  have hl := (hlocked q).mp hq
  cases h with
  | empty _ hl₀ => rw [hl] at hl₀; cases hl₀
  | filling hj hl₀ hpc hq' hp hh =>
    rw [hl] at hl₀
    cases hl₀
    exact ⟨_, _, hj, hq', hpc, hp, hh⟩
  | full _ hl₀ => rw [hl] at hl₀; cases hl₀

/-- The first to take the lock begins the prefill. -/
theorem Credit.lock (h : Credit n s) (hl : s.lock = none) (hnone : s.ctx.jetty = none)
    (hne : s.ctx.jetty ≠ (s.calls q).recvInfo.jetty) :
    Credit n { s.setPc q (.posting 0) with lock := some q } := by
  cases h with
  | empty hj _ hp hh =>
    rw [hnone] at hne
    obtain ⟨jetty, hq⟩ := Option.ne_none_iff_exists'.mp hne.symm
    refine @Credit.filling n _ q jetty 0 hnone rfl (.inl ⟨?_, Nat.zero_le _⟩) ?_ hp hh
    · exact congrArg RecvInit.pc (setPc_calls_self ..)
    · exact (congrArg (fun c : RecvInit => c.recvInfo.jetty) (setPc_calls_self ..)).trans hq
  | filling _ hl₀ => rw [hl] at hl₀; cases hl₀
  | full hj => rw [hnone] at hj; cases hj

/-- Every post of the prefill is one more. -/
theorem Credit.post {i : Nat} {s₁ : RecvHandle} {ret : UrmaStatus} (h : Credit n s)
    (hlocked : s.Locked) (hc : (s.calls q).pc = .posting i) (hi : i < n)
    (hpost : s.recvWithNotify (some q) (s.calls q).recvInfo.jfr (s.calls q).recvInfo.jetty urmaSuccess
      = (s₁, ret)) :
    Credit n (s₁.setPc q (if ret = urmaSuccess then .posting (i + 1) else .leaving ret)) := by
  obtain ⟨jetty, i', hj, hq, hpc, hp, hh⟩ := h.of_holder hlocked (by rw [hc]; rfl)
  have hii : i' = i := by
    rcases hpc with ⟨hpc, -⟩ | ⟨hpc, -⟩ <;> rw [hc] at hpc <;> cases hpc
    rfl
  subst hii
  rcases recvWithNotify_cases hpost with ⟨he, -, -⟩ | ⟨endpoint, he, rfl, rfl⟩
  · rw [show recvEndpoint _ _ = _ from endpoint_of_jetty hq] at he
    cases he
  · rw [show recvEndpoint _ _ = _ from endpoint_of_jetty hq] at he
    cases he
    rw [if_pos rfl]
    refine @Credit.filling n _ q jetty (i' + 1) hj ((hlocked q).mp (by rw [hc]; rfl))
      (.inl ⟨?_, by omega⟩) ?_ ?_ hh
    · rw [setPc_calls_self]
    · rw [setPc_calls_self]
      exact hq
    · show s.posts ++ [_] = _
      rw [hp, List.replicate_succ']

/-- The prefill ends when all is posted. -/
theorem Credit.done {i : Nat} (h : Credit n s) (hlocked : s.Locked)
    (hc : (s.calls q).pc = .posting i) (hi : ¬ i < n) :
    Credit n (s.setPc q (.leaving urmaSuccess)) := by
  obtain ⟨jetty, i', hj, hq, hpc, hp, hh⟩ := h.of_holder hlocked (by rw [hc]; rfl)
  have hii : i' = n := by
    rcases hpc with ⟨hpc, hle⟩ | ⟨hpc, -⟩ <;> rw [hc] at hpc <;> cases hpc
    omega
  refine @Credit.filling n _ q jetty i' hj ((hlocked q).mp (by rw [hc]; rfl))
    (.inr ⟨?_, hii⟩) ?_ hp hh
  · rw [setPc_calls_self]
  · rw [setPc_calls_self]
    exact hq

/-- Its jetty is remembered from then on. -/
theorem Credit.leave {ret : UrmaStatus} (h : Credit n s) (hlocked : s.Locked)
    (hc : (s.calls q).pc = .leaving ret) :
    Credit n { s.setPc q (.returned ret) with
      ctx := if ret = urmaSuccess ∨ ret = urmaEnomem
        then { s.ctx with jetty := (s.calls q).recvInfo.jetty } else s.ctx
      lock := none } := by
  obtain ⟨jetty, i, hj, hq, hpc, hp, hh⟩ := h.of_holder hlocked (by rw [hc]; rfl)
  have hret : ret = urmaSuccess ∧ i = n := by
    rcases hpc with ⟨hpc, -⟩ | ⟨hpc, hin⟩ <;> rw [hc] at hpc <;> cases hpc
    exact ⟨rfl, hin⟩
  obtain ⟨rfl, rfl⟩ := hret
  refine @Credit.full i _ jetty ?_ rfl ?_
  · rw [if_pos (.inl rfl)]
    exact hq
  · show s.posts.countP _ = s.handled.count jetty + i
    rw [hp, hh, List.countP_replicate]
    simp

/-- A completion consumes one work request, and posts one for it. -/
theorem Credit.completion {origin : Nat} {s₁ : RecvHandle} {ret : UrmaStatus} (h : Credit n s)
    (horigin : s.ctx.jetty = some origin)
    (hpost : s.recvWithNotify none none s.ctx.jetty urmaSuccess = (s₁, ret)) :
    Credit n { s₁ with handled := s₁.handled ++ [origin] } := by
  rw [horigin] at hpost
  rcases recvWithNotify_cases hpost with ⟨he, -, -⟩ | ⟨endpoint, he, rfl, rfl⟩
  · cases he
  · cases he
    cases h with
    | empty hj => rw [horigin] at hj; cases hj
    | filling hj => rw [horigin] at hj; cases hj
    | full hj hl hcount =>
      rw [horigin] at hj
      cases hj
      refine @Credit.full n _ origin horigin hl ?_
      show (s.posts ++ [_]).countP _ = (s.handled ++ [origin]).count origin + n
      rw [List.countP_append, List.count_append]
      have hcount' : s.posts.countP _ = _ := hcount
      rw [hcount']
      simp
      omega

/-- **One step keeps the credit**: every completion is answered by a post. -/
theorem Credit.move (h : Credit n s) (hlocked : s.Locked)
    (hn : s.ctx.prefillCount = n) (hok : PostsSucceed s a) (hone : OneJetty s a)
    (hm : RecvMove s a s') : Credit n s' := by
  have hholder : ∀ {q q'}, (s.calls q).pc.holds = false → s.lock = some q' → q' ≠ q := by
    rintro q q' hq hl rfl
    rw [(hlocked q').mpr hl] at hq
    cases hq
  cases hm with
  -- the holder of the lock, if there is one, is another call
  | call hc =>
    refine h.congr rfl rfl (fun q' hl => Function.update_of_ne (hholder ?_ hl) ..) rfl rfl
    rw [hc]
    rfl
  | skip hc =>
    refine h.congr rfl rfl (fun q' hl => setPc_calls_of_ne _ _ (hholder ?_ hl)) rfl rfl
    rcases hc with hc | hc <;> rw [hc] <;> rfl
  | differ hc =>
    refine h.congr rfl rfl (fun q' hl => setPc_calls_of_ne _ _ (hholder ?_ hl)) rfl rfl
    rw [hc]
    rfl
  -- with one jetty, a call that does not match it is the first
  | lock hc hl hne => exact h.lock hl ((hone (.inr hc)).resolve_right hne) hne
  | post hc hi hpost =>
    have hstatus : _ = urmaSuccess := hok
    rw [hstatus] at hpost
    exact h.post hlocked hc (hn ▸ hi) hpost
  | done hc hi => exact h.done hlocked hc (hn ▸ hi)
  | leave hc => exact h.leave hlocked hc
  | completion hpost =>
    obtain ⟨hstatus, -⟩ := hok
    rw [hstatus] at hpost
    exact h.completion hone hpost

/-- Who returns leaves his jetty remembered. -/
theorem RecvHandle.ReturnedOwn.move (h : s.ReturnedOwn) (hcredit : Credit n s)
    (hlocked : s.Locked) (hm : RecvMove s a s') : s'.ReturnedOwn := by
  intro q ret jetty hret hj
  have hold : ∀ {q'}, q ≠ q' → s'.calls q = s.calls q → s'.ctx = s.ctx →
      s'.ctx.jetty = some jetty := by
    intro q' _ hcalls hctx
    rw [hcalls] at hret hj
    rw [hctx]
    exact h q ret jetty hret hj
  cases hm with
  | @call q' recvInfo hc =>
    by_cases hq : q = q'
    · have hret' : (Function.update s.calls q' ⟨recvInfo, .checking⟩ q).pc = .returned ret := hret
      rw [hq, Function.update_self] at hret'
      cases hret'
    · exact hold hq (Function.update_of_ne hq ..) rfl
  | @skip q' status hc heq =>
    by_cases hq : q = q'
    · rw [hq, setPc_calls_self] at hj
      exact heq.trans hj
    · exact hold hq (setPc_calls_of_ne _ _ hq) rfl
  | @differ q' | @done q' =>
    by_cases hq : q = q'
    · rw [hq, setPc_calls_self] at hret
      cases hret
    · exact hold hq (setPc_calls_of_ne _ _ hq) rfl
  | @lock q' status hc hl hne =>
    by_cases hq : q = q'
    · have hret' : ((s.setPc q' (.posting 0)).calls q).pc = .returned ret := hret
      rw [hq, setPc_calls_self] at hret'
      cases hret'
    · exact hold hq (setPc_calls_of_ne _ _ hq) rfl
  | @post q' status i s₁ ret' hc hi hpost =>
    have hs₁ : s₁.calls = s.calls ∧ s₁.ctx = s.ctx := by
      rcases recvWithNotify_cases hpost with ⟨-, rfl, -⟩ | ⟨_, -, rfl, -⟩ <;> exact ⟨rfl, rfl⟩
    by_cases hq : q = q'
    · rw [hq, setPc_calls_self] at hret
      dsimp only at hret
      split at hret <;> cases hret
    · refine hold hq ?_ hs₁.2
      rw [setPc_calls_of_ne _ _ hq, hs₁.1]
  | @leave q' status ret' hc =>
    obtain ⟨jetty', i, hnone, hq', hpc, -⟩ := hcredit.of_holder hlocked (by rw [hc]; rfl)
    have hsuccess : ret' = urmaSuccess := by
      rcases hpc with ⟨hpc, -⟩ | ⟨hpc, -⟩ <;> rw [hc] at hpc <;> cases hpc
      rfl
    have hret' : ((s.setPc q' (.returned ret')).calls q).pc = .returned ret := hret
    have hj' : ((s.setPc q' (.returned ret')).calls q).recvInfo.jetty = some jetty := hj
    by_cases hq : q = q'
    · rw [hq, setPc_calls_self] at hj'
      show (if _ then _ else _ : UrmaRecvCtx).jetty = _
      rw [if_pos (.inl hsuccess)]
      exact hj'
    · -- no call with a jetty has returned before the prefill
      rw [setPc_calls_of_ne _ _ hq] at hret' hj'
      have hown := h q ret jetty hret' hj'
      rw [hnone] at hown
      cases hown
  | completion hpost =>
    rcases recvWithNotify_cases hpost with ⟨-, rfl, -⟩ | ⟨_, -, rfl, -⟩ <;>
      exact h q ret jetty hret hj

/-- In every run with one jetty and no refused post the credit is kept. -/
theorem credit_reach {capacity : BitVec 32}
    (h : (recvSystem capacity).Reach (fun s a => PostsSucceed s a ∧ OneJetty s a) s) :
    Credit (UrmaRecvCtx.prefillCount ⟨capacity, none⟩) s ∧ s.ReturnedOwn := by
  refine h.invariant (I := fun s => Credit (UrmaRecvCtx.prefillCount ⟨capacity, none⟩) s ∧
    s.ReturnedOwn) ?_ ?_
  · rintro s rfl
    refine ⟨.empty rfl rfl rfl rfl, ?_⟩
    intro q ret jetty hret
    cases hret
  · rintro s a s' hr ⟨hcredit, hown⟩ ⟨hok, hone⟩ hs
    have hm := recvMove_of_step hs
    have hn : s.ctx.prefillCount = UrmaRecvCtx.prefillCount ⟨capacity, none⟩ := by
      rw [UrmaRecvCtx.prefillCount, capacity_reach hr]
      rfl
    exact ⟨hcredit.move (locked_reach hr) hn hok hone hm,
      hown.move hcredit (locked_reach hr) hm⟩

/-- **The credit of a jetty is conserved.**  In a run in which every call compares its jetty with
    that jetty or with the initial `NULL`, and every completion comes from the remembered jetty: once a
    call with a jetty has returned `0`, the work requests posted to it are the consumed ones and
    `recv_queue_capacity` times `RQE_PREFILL_MULTIPLE_DUPLEX`, as `uint32_t`, more. -/
theorem credit_conserved {capacity : BitVec 32} {jetty : Nat}
    (h : (recvSystem capacity).Reach (fun s a => PostsSucceed s a ∧ OneJetty s a) s)
    (hq : s.Accepted q) (hj : (s.calls q).recvInfo.jetty = some jetty) :
    s.credits jetty = s.handled.count jetty
      + (capacity * Transport.rqePrefillMultipleDuplex).toNat := by
  obtain ⟨hcredit, hown⟩ := credit_reach h
  obtain ⟨ret, hret, -⟩ := hq
  have hremembered := hown q ret jetty hret hj
  cases hcredit with
  | empty hnone => rw [hremembered] at hnone; cases hnone
  | filling hnone => rw [hremembered] at hnone; cases hnone
  | full hfull _ hcount =>
    rw [hremembered] at hfull
    cases hfull
    exact hcount

end Credits

/-- The two assumptions, evaluated. -/
def ordinary (s : RecvHandle) : RecvAction → Bool
  | .step _ status => status == urmaSuccess
  | .completion origin status =>
    status == urmaSuccess && decide (s.handled.count origin < s.credits origin)
  | _ => true

/-- The test that no post is refused. -/
theorem postsSucceed_of_ordinary {s : RecvHandle} {a : RecvAction} (h : ordinary s a = true) :
    PostsSucceed s a := by
  cases a with
  | call => trivial
  | step q status => exact beq_iff_eq.mp h
  | completion origin status =>
    simp only [ordinary, Bool.and_eq_true, beq_iff_eq, decide_eq_true_eq] at h
    exact h

/-- The jetty of a call is the remembered one, or none is remembered yet. -/
def oneJettyb (s : RecvHandle) : RecvAction → Bool
  | .step q _ => s.ctx.jetty == none || s.ctx.jetty == (s.calls q).recvInfo.jetty
  | .completion origin _ => s.ctx.jetty == some origin
  | _ => true

/-- The test that there is one jetty. -/
theorem oneJetty_of_oneJettyb {s : RecvHandle} {a : RecvAction} (h : oneJettyb s a = true) :
    OneJetty s a := by
  cases a with
  | call => trivial
  | step q status =>
    intro _
    simpa only [oneJettyb, Bool.or_eq_true, beq_iff_eq] using h
  | completion origin status => exact beq_iff_eq.mp h

/-- Two calls with one jetty and a completion in between. -/
theorem credit_conserved_one_jetty : ∃ s,
    (recvSystem 1#32).Reach (fun s a => PostsSucceed s a ∧ OneJetty s a) s ∧
    s.handled.count 2 = 1 ∧ s.credits 2 = s.handled.count 2 + 4 := by
  have hok : ∀ s a, (ordinary s a && oneJettyb s a) = true → PostsSucceed s a ∧ OneJetty s a := by
    intro s a h
    rw [Bool.and_eq_true] at h
    exact ⟨postsSucceed_of_ordinary h.1, oneJetty_of_oneJettyb h.2⟩
  obtain ⟨s, hr, hP⟩ := recvSystem_exec 1#32 _ hok
    (runInit 0 none (some 2) 8 ++ [.completion 2 urmaSuccess] ++ runInit 1 none (some 2) 1)
    (fun s => acceptedb s 0 && (s.calls 0).recvInfo.jetty == some 2 && s.handled.count 2 == 1)
    (by decide +kernel)
  simp only [Bool.and_eq_true, beq_iff_eq] at hP
  obtain ⟨⟨hq, hj⟩, hcount⟩ := hP
  exact ⟨s, hr, hcount, credit_conserved hr (accepted_of_acceptedb hq) hj⟩

/-- Three calls with the jetties 2, 5 and 2 again: the first jetty is prefilled twice. -/
theorem second_jetty_drifts : ¬ ∀ (s : RecvHandle) (q jetty : Nat),
    (recvSystem 1#32).Reach PostsSucceed s → s.Accepted q →
    (s.calls q).recvInfo.jetty = some jetty →
    s.credits jetty = s.handled.count jetty + (1#32 * Transport.rqePrefillMultipleDuplex).toNat := by
  intro hall
  obtain ⟨s, hr, hP⟩ := recvSystem_exec 1#32 ordinary (fun _ _ => postsSucceed_of_ordinary)
    (runInit 0 none (some 2) 8 ++ runInit 1 none (some 5) 8 ++ runInit 2 none (some 2) 8)
    (fun s => acceptedb s 0 && (s.calls 0).recvInfo.jetty == some 2 && s.credits 2 == 8
      && s.handled.isEmpty) (by decide +kernel)
  simp only [Bool.and_eq_true, beq_iff_eq, List.isEmpty_iff] at hP
  obtain ⟨⟨⟨hq, hj⟩, hcredits⟩, hnil⟩ := hP
  have hcount := hall s 0 2 hr (accepted_of_acceptedb hq) hj
  rw [hcredits, hnil] at hcount
  exact absurd hcount (by decide)

end OsTransport
