/-
  Many transfers at once.

  `EndToEnd` asks the world to spare the buffers of one transfer.  When every send of a cluster is
  one of a family of transfers, most of that is a consequence: whatever the provider copies it
  copies for one of them, from one of its buffers to the other (`WritesInto`), and if no transfer
  writes where another reads or writes, each is spared by all the rest (`spared`).  What
  is left to ask of the world is little: applications leave the buffers of a called send alone, and
  the provider gives up no write.

  1. `AllPlanned.packet`: a packet under way belongs to a send that was called, so to a planned one,
     and it reads and writes the buffers of that plan;
  2. `spared`: hence a copy made for one transfer is outside the buffers of every other, and with the
     applications kept away each transfer is spared in every step;
  3. `transfers_together`: so every transfer of the family has its fence, and what `EndToEnd` says of
     one holds of each.

  In the run at the end both nodes send and receive at the same time, and each transfer has its
  first chunk reported while its second one is still to come.
-/
import OsTransport.EndToEnd

namespace OsTransport

open Network Transition

/-- A transfer and its two calls. -/
structure Plan (ν : Type*) where
  buffers : Buffers ν
  q : Nat
  q' : Nat
  send : SendCall
  recv : RecvCall

namespace Plan

variable {ν : Type*}

/-- `m` does not write where `l` reads or writes.  Two transfers may read the same bytes. -/
def Clear (l m : Plan ν) : Prop :=
  ∀ o < m.buffers.len, ¬ l.buffers.Has m.buffers.receiver (m.buffers.dst + BitVec.ofNat 64 o)

/-- The send has been called. -/
def Called (l : Plan ν) (c : Cluster ν) : Prop :=
  ((c.node l.buffers.sender).reqs l.q).prep.tasks ≠ []

/-- Both calls have been made, with keys of their own.  That the keys are used by nothing else is
    part of `Transfer`. -/
def Runs (l : Plan ν) (peer : ν → Ptr → ν) (c : Cluster ν) : Prop :=
  Transfer peer l.buffers l.q l.q' l.send l.recv c

end Plan

variable {ι ν : Type*} [DecidableEq ν] {peer : ν → Ptr → ν} {workers : ν → Nat}
  {capacity : ν → BitVec 32} {memory : ν → BitVec 64 → BitVec 8} {plan : ι → Plan ν}
  {c c' : Cluster ν}

/-- Every send that has been called is planned. -/
def AllPlanned (peer : ν → Ptr → ν) (plan : ι → Plan ν) (c : Cluster ν) : Prop :=
  ∀ w p writeInfo, ((c.node w).reqs p).prep.tasks ≠ [] →
    ((c.node w).reqs p).prep.urmaInfo = .write writeInfo →
      ∃ i, (plan i).buffers.sender = w ∧ (plan i).q = p ∧
        Sending peer (plan i).buffers (plan i).q (plan i).send c

/-- Applications leave the buffers of a called send alone, and the provider gives up no write. -/
def Orderly (plan : ι → Plan ν) (c : Cluster ν) : Act ν Action (Carry ν) → Prop
  | .env (.store w addr _) => ∀ i, (plan i).Called c → ¬ (plan i).buffers.Has w addr
  | .env (.fail i) => ∀ p, c.env.flight[i]? = some p → p.opcode ≠ .write
  | _ => True

section Runs

variable {ok : Cluster ν → Act ν Action (Carry ν) → Prop}

/-- No send was planned later than it was called. -/
theorem AllPlanned.back (h : (clusterSystem peer workers capacity memory).Reach ok c)
    {x : Act ν Action (Carry ν)} (hs : (wiring peer).net c x = some c')
    (hplan : AllPlanned peer plan c') : AllPlanned peer plan c := by
  intro w p writeInfo hmade hinfo
  have hkept := prep_kept h hs hmade
  obtain ⟨i, rfl, rfl, hsending⟩ := hplan w p writeInfo (hkept ▸ hmade) (hkept ▸ hinfo)
  refine ⟨i, rfl, rfl, { hsending with sent := ?_ }⟩
  obtain ⟨mem, hsend⟩ := hsending.sent
  exact ⟨mem, hsend.trans (congrArg some hkept)⟩

/-- What is under way is under way for one of the transfers. -/
theorem AllPlanned.packet (h : (clusterSystem peer workers capacity memory).Reach ok c)
    (hplan : AllPlanned peer plan c) {p : Packet ν} (hp : p ∈ c.env.flight) :
    ∃ i, (plan i).buffers.sender = p.src ∧ (plan i).q = p.req ∧
      WritesInto peer (plan i).buffers (plan i).q c := by
  obtain ⟨⟨queue, hpost⟩, -⟩ := backed_reach h p.src p hp rfl
  obtain ⟨hmade, writeInfo, hinfo, -⟩ := posted_reach (reach_alone h p.src) _ _ _ _ _ _ hpost
  obtain ⟨i, hsrc, hreq, hsending⟩ := hplan _ _ writeInfo hmade hinfo
  exact ⟨i, hsrc, hreq, hsending.writesInto h⟩

/-- An orderly world spares every transfer. -/
theorem spared (hclear : ∀ i j, i ≠ j → (plan i).Clear (plan j))
    (h : (clusterSystem peer workers capacity memory).Reach ok c) (hplan : AllPlanned peer plan c)
    {x : Act ν Action (Carry ν)} (hx : Orderly plan c x) (i : ι) :
    Fenced (plan i).buffers (plan i).q c x := by
  intro hcalled
  cases x with
  | node => trivial
  | env y =>
    cases y with
    | store w addr byte => exact hx i hcalled
    | fail k => exact fun p hp hown => hx p hp hown.2.2
    | copy k j =>
      intro p byte hp hbyte
      have hmem := List.mem_of_getElem? hp
      obtain ⟨i', hsrc, hreq, hwrites⟩ := hplan.packet h hmem
      by_cases hi : i = i'
      · subst hi
        exact .inl ⟨hsrc.symm, hreq.symm⟩
      · -- it is copied into a buffer of another transfer
        right
        obtain ⟨hdst, -, o, ho, rfl⟩ := hwrites.todo (backed_reach h _) hmem hsrc.symm hreq.symm
          (List.mem_of_getElem? hbyte)
        rw [hdst]
        exact hclear i i' hi o ho
    | _ => trivial

theorem orderly_fenced (hclear : ∀ i j, i ≠ j → (plan i).Clear (plan j))
    (h : (clusterSystem peer workers capacity memory).Reach (Orderly plan) c)
    (hplan : AllPlanned peer plan c) (i : ι) :
    (clusterSystem peer workers capacity memory).Reach
      (Fenced (plan i).buffers (plan i).q) c := by
  have hback : ∀ c x c', (clusterSystem peer workers capacity memory).Reach (Orderly plan) c →
      (wiring peer).net c x = some c' → AllPlanned peer plan c' → AllPlanned peer plan c :=
    fun _ _ _ hr hs hp => hp.back hr hs
  have hthroughout := h.throughout hback hplan
  have hreached := hthroughout.strengthen
    (Q := fun c => (clusterSystem peer workers capacity memory).Reach (fun _ _ => True) c)
    fun _ hr => hr.mono fun _ _ _ => trivial
  exact hreached.mono fun c x hx => spared hclear hx.2 hx.1.2 hx.1.1 i

/-- Transfers that do not write into each other's buffers run together, whatever the provider: each
    callback of each finds its chunk. -/
theorem transfers_together {ε : Type*} {P : Provider ν ε} {n : Net ν Transport ε} (hP : P.Lawful)
    (hclear : ∀ i j, i ≠ j → (plan i).Clear (plan j)) (happart : ∀ i, (plan i).buffers.Apart)
    (h : (P.clusterSystem workers capacity memory).Reach (fun n x => Orderly plan (P.seen n) x) n)
    (hplan : AllPlanned P.peer plan (P.seen n)) {i : ι} (hruns : (plan i).Runs P.peer (P.seen n))
    {k : Nat}
    (hk : (∃ w, (n.node (plan i).buffers.receiver).Executes w ⟨(plan i).q', k⟩) ∨
      callbacksOf ⟨(plan i).q', k⟩ (n.node (plan i).buffers.receiver).trace ≠ []) :
    ∀ o < (plan i).buffers.len, o / defaultChunkSize.toNat = k →
      (plan i).buffers.Agree (P.view n.env).memory o := by
  have hfenced := orderly_fenced hclear (hP.reach_seen h) hplan i
  obtain ⟨queue, wr, hpost⟩ := Transfer.notified hfenced hruns hk
  exact fun o ho hok => Transfer.in_place (happart i) (fun _ _ hx => hx) hfenced hruns hpost ho hok

/-! ### Two transfers at once, in opposite directions

Each node sends to the other, and is half-way through. -/

/-- Node `false` sends to node `true` as request 0 of both, and node `true` sends to node `false` as
    request 1 of both. -/
def pairPlan : Bool → Plan Bool
  | false => ⟨pairBuffers, 0, 0, plainSend 2097153#32, pairRecv⟩
  | true => ⟨⟨true, 0x40000000#64, false, 0x50000000#64, 2097153⟩, 1, 1,
      { plainSend 2097153#32 with
        localSrc := some ⟨0x40000000#64, some 3⟩, remoteDst := some ⟨0x50000000#64, some 4⟩
        serverKey := 9#64, clientKey := 10#64 },
      { plainRecv 2097153#32 with hostSrc := some ⟨0x50000000#64, some 3⟩, clientKey := 10#64 }⟩

theorem pairPlan_clear (i j : Bool) (hne : i ≠ j) : (pairPlan i).Clear (pairPlan j) := by
  have hoff : ∀ {x y : BitVec 64} {o o' : Nat}, o < 2097153 → o' < 2097153 →
      x.toNat + 2097153 ≤ y.toNat → y.toNat + 2097153 ≤ 2 ^ 64 →
      x + BitVec.ofNat 64 o ≠ y + BitVec.ofNat 64 o' := by
    intro x y o o' ho ho' hxy hy heq
    have hnat := congrArg BitVec.toNat heq
    rw [BitVec.toNat_add, BitVec.toNat_add, BitVec.toNat_ofNat, BitVec.toNat_ofNat] at hnat
    omega
  intro o ho hhas
  cases i <;> cases j
  · exact hne rfl
  · rcases hhas with ⟨-, o', ho', heq⟩ | ⟨hw, -⟩
    · exact hoff ho' ho (by decide) (by decide) heq.symm
    · cases hw
  · rcases hhas with ⟨-, o', ho', heq⟩ | ⟨hw, -⟩
    · exact hoff ho ho' (by decide) (by decide) heq
    · cases hw
  · exact hne rfl

/-- All four calls, up to their returns. -/
def crossCalls : List (Option (Act Bool Action (Carry Bool))) :=
  ([false, true].flatMap fun i => onNode (!i) (.callRecv (pairPlan i).q' (pairPlan i).recv true .ok ::
    List.replicate 7 (.caller (pairPlan i).q' .ok []))) ++
  [false, true].flatMap fun i => onNode i (.callSend (pairPlan i).q (pairPlan i).send true .ok ::
    List.replicate 8 (.caller (pairPlan i).q .ok []))

/-- The write of chunk 0 is completed; its task posts the notify, and the write of chunk 1. -/
def crossWrite (i : Bool) : List (Option (Act Bool Action (Carry Bool))) :=
  let tag := (chunkTag ((pairPlan i).send.serverKey.setWidth 60) 2 0).userCtx
  onNode i ([.completion 0 ⟨0, false, 0, tag, 0#64⟩ urmaSuccess, .wake 0 .ok, .wake 0 .ok] ++
    List.replicate 7 (.worker 0 0))

/-- The notify of chunk 0, work request `j`, arrives, and its task on the receiver calls back. -/
def crossNotify (i : Bool) (j : Nat) : List (Option (Act Bool Action (Carry Bool))) :=
  let imm := (chunkTag ((encodeRequestId (pairPlan i).send.clientKey).setWidth 60) 2 0).userCtx
  some (.env (.deliver j imm)) ::
    onNode (!i) ([.completion 0 ⟨0, true, urmaCrOpcSendWithImm, 0#64, imm⟩ urmaSuccess, .wake 0 .ok,
      .wake 0 .ok] ++ List.replicate 5 (.worker 0 0))

/-- Both transfers get half-way, step by step in turn. -/
def crossRun : List (Option (Act Bool Action (Carry Bool))) :=
  crossCalls ++ [none, some (.env (.finish 0)), some (.env (.finish 0))] ++ crossWrite false ++
    crossWrite true ++ crossNotify false 0 ++ crossNotify true 1

/-- Only requests 0 and 1 of either node are made, and nothing fails. -/
def crossOk (_ : Cluster Bool) : Option (Act Bool Action (Carry Bool)) → Bool
  | some (.node _ (.callSend q _ _ _)) => decide (q < 2)
  | some (.node _ (.callRecv q _ _ _)) => decide (q < 2)
  | some (.env (.finish _)) => true
  | some (.env (.deliver _ _)) => true
  | some (.env _) => false
  | _ => true

/-- Only requests 0 and 1 of either node are made. -/
def CrossMakes (_ : Cluster Bool) (x : Act Bool Action (Carry Bool)) : Prop :=
  ∀ v q, 2 ≤ q → (∀ call mem alloc, x ≠ .node v (.callSend q call mem alloc)) ∧
    ∀ call mem alloc, x ≠ .node v (.callRecv q call mem alloc)

/-- The two calls of each transfer have been made. -/
def crossMade (node : Bool → Transport) : Bool :=
  [false, true].all fun i =>
    decide (prepareSend (pairPlan i).q true (pairPlan i).send true =
      some ((node i).reqs (pairPlan i).q).prep) &&
    decide (prepareRecv (pairPlan i).q' true (pairPlan i).recv true =
      some ((node (!i)).reqs (pairPlan i).q').prep)

/-- Chunk 0 of each transfer has been reported, and chunk 1 of neither. -/
def crossHalf (node : Bool → Transport) : Bool :=
  [false, true].all fun i =>
    (callbacksOf ⟨(pairPlan i).q', 0⟩ (node (!i)).trace).length == 1 &&
      (callbacksOf ⟨(pairPlan i).q', 1⟩ (node (!i)).trace).isEmpty

theorem crossOk_guard (c : Cluster Bool) (x : Act Bool Action (Carry Bool))
    (m : Bool → BitVec 64 → BitVec 8) (h : crossOk c (some x) = true) :
    Act.steady x = true ∧ Orderly pairPlan (c.withMemory m) x ∧ CrossMakes (c.withMemory m) x := by
  cases x with
  | node v a =>
    refine ⟨rfl, trivial, fun v' q hq => ⟨?_, ?_⟩⟩
    · rintro call mem alloc ⟨⟩
      exact absurd (of_decide_eq_true h) (by omega)
    · rintro call mem alloc ⟨⟩
      exact absurd (of_decide_eq_true h) (by omega)
  | env y =>
    have hmakes : CrossMakes (c.withMemory m) (.env y) := fun v q _ =>
      ⟨by rintro _ _ _ ⟨⟩, by rintro _ _ _ ⟨⟩⟩
    cases y with
    | finish | deliver => exact ⟨rfl, trivial, hmakes⟩
    | _ => cases h

theorem cross_made {node : Bool → Transport} (h : crossMade node = true) (i : Bool) :
    prepareSend (pairPlan i).q true (pairPlan i).send true =
        some ((node i).reqs (pairPlan i).q).prep ∧
      prepareRecv (pairPlan i).q' true (pairPlan i).recv true =
        some ((node (!i)).reqs (pairPlan i).q').prep := by
  have hall := List.all_eq_true.mp h i (by cases i <;> simp)
  obtain ⟨hsend, hrecv⟩ := Bool.and_eq_true_iff.mp hall
  exact ⟨of_decide_eq_true hsend, of_decide_eq_true hrecv⟩

/-- What node `w` has made is the send of its own transfer, or the receive of the other. -/
theorem cross_request {c : Cluster Bool} (h : pairSystem.Reach CrossMakes c) {w : Bool} {p : Nat}
    (hmade : ((c.node w).reqs p).prep.tasks ≠ []) :
    p = (pairPlan w).q ∨ p = (pairPlan (!w)).q' := by
  have hlt : p < 2 := by
    by_contra hge
    have hr := reach_transport (fun _ a => (∀ call mem alloc, a ≠ .callSend p call mem alloc) ∧
      ∀ call mem alloc, a ≠ .callRecv p call mem alloc) w (fun c a _ hx _ => ?_) h
    · exact hmade ((nodes_reach hr).fresh p (fresh_of_unmade (fun _ _ hx => hx) hr))
    · obtain ⟨hsend, hrecv⟩ := hx w p (by omega)
      exact ⟨fun call mem alloc ha => hsend call mem alloc (congrArg _ ha),
        fun call mem alloc ha => hrecv call mem alloc (congrArg _ ha)⟩
  obtain rfl | rfl : p = 0 ∨ p = 1 := by omega
  · cases w
    · exact .inl rfl
    · exact .inr rfl
  · cases w
    · exact .inr rfl
    · exact .inl rfl

/-- Whoever notifies does so for its own transfer. -/
theorem cross_announces {c : Cluster Bool} (h : pairSystem.Reach CrossMakes c)
    (hmade : crossMade c.node = true) {w v : Bool} {p : Nat} {key : ReqId}
    (ha : Announces pairPeer c w p key v) :
    w = !v ∧ p = (pairPlan w).q ∧ (encodeRequestId key).setWidth 60 =
      (encodeRequestId (pairPlan w).send.clientKey).setWidth 60 := by
  obtain ⟨call, mem, jettyInfo, hsend, hkey, -, hpeer⟩ := ha
  refine ⟨by rw [← hpeer]; exact (Bool.not_not w).symm, ?_⟩
  obtain ⟨-, -, -, _, _, _, _, -, -, -, -, -, hp⟩ := prepareSend_eq_some hsend
  rcases cross_request h (prepareSend_wellFormed hsend).tasks_ne_nil with rfl | rfl
  · obtain ⟨-, -, -, _, _, _, _, -, -, -, -, -, hp'⟩ := prepareSend_eq_some (cross_made hmade w).1
    have hinfo := congrArg Prepared.urmaInfo (hp.symm.trans hp')
    refine ⟨rfl, ?_⟩
    rw [← hkey]
    exact congrArg (fun info => info.userCtxClient.requestId) (UrmaInfo.write.inj hinfo)
  · -- the other request of the node is a receive
    have hrecv := (cross_made hmade (!w)).2
    rw [Bool.not_not] at hrecv
    obtain ⟨-, -, _, _, _, -, -, -, -, hp'⟩ := prepareRecv_eq_some hrecv
    cases congrArg Prepared.urmaInfo (hp.symm.trans hp')

/-- The ids of the requests of node `w`. -/
theorem cross_id {c : Cluster Bool} (hmade : crossMade c.node = true) (w : Bool) :
    ((c.node w).reqs (pairPlan w).q).prep.requestId = (pairPlan w).send.serverKey ∧
      ((c.node w).reqs (pairPlan (!w)).q').prep.requestId = (pairPlan (!w)).recv.clientKey := by
  obtain ⟨-, -, -, _, _, _, _, -, -, -, -, -, hp⟩ := prepareSend_eq_some (cross_made hmade w).1
  have hrecv := (cross_made hmade (!w)).2
  rw [Bool.not_not] at hrecv
  obtain ⟨-, -, _, _, _, -, -, -, -, hp'⟩ := prepareRecv_eq_some hrecv
  exact ⟨congrArg Prepared.requestId hp, congrArg Prepared.requestId hp'⟩

/-- Either pair of requests is a transfer, with keys of its own. -/
theorem cross_transfer {c : Cluster Bool} (h : pairSystem.Reach CrossMakes c)
    (hmade : crossMade c.node = true) (i : Bool) : (pairPlan i).Runs pairPeer c := by
  have hkeys : (pairPlan i).send.serverKey ≠ (pairPlan (!i)).recv.clientKey ∧
      (pairPlan (!i)).send.serverKey ≠ (pairPlan i).recv.clientKey ∧
      (encodeRequestId (pairPlan i).send.serverKey).setWidth 60 ≠
        (encodeRequestId (pairPlan (!i)).send.clientKey).setWidth 60 := by
    cases i <;> decide
  have hsender : (pairPlan i).buffers.sender = i := by cases i <;> rfl
  have hreceiver : (pairPlan i).buffers.receiver = !i := by cases i <;> rfl
  obtain ⟨hsend, hrecv⟩ := cross_made hmade i
  refine ⟨⟨⟨true, ?_⟩, ?_, ?_, ?_, ?_⟩, ⟨true, ?_⟩, ?_, ?_, ?_, ?_, ?_, ?_, ?_⟩
  · rw [hsender]
    exact hsend
  · intro _ _
    rw [hsender, hreceiver]
    rfl
  · cases i <;> exact ⟨_, rfl⟩
  · cases i <;> exact ⟨_, rfl⟩
  · cases i <;> rfl
  · rw [hreceiver]
    exact hrecv
  · cases i <;> exact ⟨_, rfl⟩
  · cases i <;> rfl
  · cases i <;> rfl
  · -- the server key is the id of the send only
    rw [hsender]
    intro p hp
    obtain ⟨hown, hother⟩ := cross_id hmade i
    rcases cross_request h hp with rfl | rfl
    · exact ⟨fun _ => rfl, fun _ => hown⟩
    · refine ⟨fun hid => absurd (hid.symm.trans hother) hkeys.1, fun hq => ?_⟩
      cases i <;> cases hq
  · -- and the client key that of the receive
    rw [hreceiver]
    intro p hp
    obtain ⟨hother, hown⟩ := cross_id hmade (!i)
    rw [Bool.not_not] at hown
    rcases cross_request h hp with rfl | rfl
    · refine ⟨fun hid => absurd (hother.symm.trans hid) hkeys.2.1, fun hq => ?_⟩
      cases i <;> cases hq
    · rw [Bool.not_not]
      exact ⟨fun _ => rfl, fun _ => hown⟩
  · intro w p ha
    obtain ⟨rfl, rfl, -⟩ := cross_announces h hmade ha
    rw [hsender, hreceiver, Bool.not_not]
    exact ⟨rfl, rfl⟩
  · intro w p ha
    obtain ⟨rfl, rfl, hkey⟩ := cross_announces h hmade ha
    rw [hsender] at hkey
    exact hkeys.2.2 hkey

theorem transfers_together_pair : ∃ c, pairSystem.Reach (Orderly pairPlan) c ∧ ∀ i,
    callbacksOf ⟨(pairPlan i).q', 0⟩ (c.node (!i)).trace ≠ [] ∧
    callbacksOf ⟨(pairPlan i).q', 1⟩ (c.node (!i)).trace = [] ∧
    ∀ o < 2097153, o / defaultChunkSize.toNat = 0 → (pairPlan i).buffers.Agree c.env.memory o := by
  have hrun : (exec crossOk (quickStep pairPeer) pairStart crossRun).any
      (fun c => crossMade c.node && crossHalf c.node) = true := by
    decide +kernel
  obtain ⟨c, hexec, hdone⟩ := exec_any hrun
  have hinit : pairSystem.Reach (fun c x => Orderly pairPlan c x ∧ CrossMakes c x)
      (pairStart.withMemory fun _ _ => 0#8) := .init rfl
  obtain ⟨m, hr⟩ := quick_reach (fun _ _ => True) crossOk crossOk_guard (fun _ _ _ _ => trivial)
    (fun _ _ _ _ => ⟨trivial, fun _ _ _ => ⟨by rintro _ _ _ ⟨⟩, by rintro _ _ _ ⟨⟩⟩⟩) crossRun hinit
    hexec
  obtain ⟨hmade, hhalf⟩ := Bool.and_eq_true_iff.mp hdone
  have hmakes := hr.mono fun _ _ h => h.2
  have hruns := cross_transfer hmakes hmade
  -- the send of its own transfer is the only one a node has made
  have hplan : AllPlanned pairPeer pairPlan (c.withMemory m) := by
    intro w p writeInfo hne hinfo
    rcases cross_request hmakes hne with rfl | rfl
    · refine ⟨w, by cases w <;> rfl, rfl, (hruns w).toSending⟩
    · have hrecv := (cross_made hmade (!w)).2
      rw [Bool.not_not] at hrecv
      obtain ⟨-, -, _, _, _, -, -, -, -, hp⟩ := prepareRecv_eq_some hrecv
      cases hinfo.symm.trans (congrArg Prepared.urmaInfo hp)
  have happart : ∀ i, (pairPlan i).buffers.Apart := by
    rintro (_ | _) h
    · exact absurd h Bool.false_ne_true
    · exact absurd h.symm Bool.false_ne_true
  refine ⟨c.withMemory m, hr.mono fun _ _ h => h.1, fun i => ?_⟩
  obtain ⟨hfirst, hsecond⟩ := Bool.and_eq_true_iff.mp
    (List.all_eq_true.mp hhalf i (by cases i <;> simp))
  have hcalled : callbacksOf ⟨(pairPlan i).q', 0⟩ (c.node (!i)).trace ≠ [] := by
    intro hnil
    rw [hnil] at hfirst
    cases hfirst
  refine ⟨hcalled, List.isEmpty_iff.mp hsecond, fun o ho => ?_⟩
  have hnode : (pairPlan i).buffers.receiver = !i := by cases i <;> rfl
  have hlen : (pairPlan i).buffers.len = 2097153 := by cases i <;> rfl
  refine transfers_together (Fabric.provider_lawful pairPeer) pairPlan_clear happart
    (hr.mono fun _ _ h => h.1) hplan (i := i) (hruns i) (.inr ?_) o (hlen ▸ ho)
  rw [hnode]
  exact hcalled

end Runs

end OsTransport
