/-
  A transfer from the memory of one node to the memory of another.

  Node `u` sends, node `v` receives; between them is the provider, and beside them any number of
  other nodes, requests and transfers.  What is shown is that the order in which the sender posts
  is enough:

  1. **`Fenced`** — what the rest of the world must leave alone once the send is called: nobody
     else writes into the two buffers, and the provider does not give up a write of the transfer.
  2. **The invariant (`placed_reach`)** — a byte of a posted write is in place, or is among those
     the provider has yet to copy.
  3. **The crux (`in_place`)** — a chunk that a callback is told of was notified; its notify was
     posted after the completion of its write was handled; the tag of that write was accepted once,
     so the write is no longer under way, and by 2 each of its bytes is in place.

  From 3 follow the two promises of the interface: a receive that reports success has its data,
  and so has the receiver of a send that reports success.

  `inPlace_reach` is where the provider matters: a store of the application outside the buffers
  leaves them alone (`poke_outside`), a copied byte is in place from then on because the two buffers
  are `Apart` and nobody else writes into them, and a write that ends has no byte left to copy.
  The nodes enter through `Transfer.reach_sender` alone, which is `reach_transport` of
  `OsTransport.Delivery`; everything about posts and completions of one node is in
  `OsTransport.Evidence`.

  The run of two chunks that is evaluated at the end has the provider copy one byte at a time, as
  the promises do; the copies are not listed in it, they are inserted (`quick_reach`).
-/
import OsTransport.Evidence

namespace OsTransport

open Network Transition

variable {ν : Type*} [DecidableEq ν] {peer : ν → Ptr → ν} {workers : ν → Nat}
  {capacity : ν → BitVec 32} {memory : ν → BitVec 64 → BitVec 8}

/-! ## Transfers

Two buffers on two nodes, the send between them, and what the rest of the world spares. -/

/-- The two ends of a transfer: which bytes of whose memory go where.  Both nodes may be one, and
    then the ranges must not overlap (`Apart`). -/
structure Buffers (ν : Type*) where
  sender : ν
  src : BitVec 64
  receiver : ν
  dst : BitVec 64
  len : Nat

namespace Buffers

/-- The byte at `addr` of node `w` is in one of the buffers. -/
def Has (b : Buffers ν) (w : ν) (addr : BitVec 64) : Prop :=
  (w = b.sender ∧ ∃ o < b.len, addr = b.src + BitVec.ofNat 64 o) ∨
    (w = b.receiver ∧ ∃ o < b.len, addr = b.dst + BitVec.ofNat 64 o)

/-- The buffers do not overlap. -/
def Apart (b : Buffers ν) : Prop :=
  b.sender = b.receiver →
    ∀ o < b.len, ∀ o' < b.len, b.src + BitVec.ofNat 64 o ≠ b.dst + BitVec.ofNat 64 o'

/-- The bytes at offset `o` agree. -/
def Agree (b : Buffers ν) (memory : ν → BitVec 64 → BitVec 8) (o : Nat) : Prop :=
  memory b.receiver (b.dst + BitVec.ofNat 64 o) = memory b.sender (b.src + BitVec.ofNat 64 o)

end Buffers

/-- Request `q` of node `w` notifies node `v` of its chunks under the key `key`.  The key a receiver
    waits for is chosen by its peer, so uniqueness of keys is a property of the cluster and not of
    one node. -/
def Announces (peer : ν → Ptr → ν) (c : Cluster ν) (w : ν) (q : Nat) (key : ReqId) (v : ν) : Prop :=
  ∃ call mem jettyInfo, prepareSend q true call mem = some ((c.node w).reqs q).prep ∧
    call.clientKey = key ∧ call.jettyInfo = some jettyInfo ∧ peer w jettyInfo.tjetty = v

/-- Request `q` of the sender sends one buffer into the other. -/
structure Sending (peer : ν → Ptr → ν) (b : Buffers ν) (q : Nat) (send : SendCall) (c : Cluster ν) :
    Prop where
  sent : ∃ mem, prepareSend q true send mem = some ((c.node b.sender).reqs q).prep
  /-- The target jetty of the send is the receiver's. -/
  route : ∀ jettyInfo, send.jettyInfo = some jettyInfo → peer b.sender jettyInfo.tjetty = b.receiver
  localSrc : ∃ tseg, send.localSrc = some ⟨b.src, tseg⟩
  remoteDst : ∃ tseg, send.remoteDst = some ⟨b.dst, tseg⟩
  sendLen : send.len.toNat = b.len

/-- Request `q` of the sender and request `q'` of the receiver are the two halves of one transfer. -/
structure Transfer (peer : ν → Ptr → ν) (b : Buffers ν) (q q' : Nat) (send : SendCall)
    (recv : RecvCall) (c : Cluster ν) : Prop extends Sending peer b q send c where
  received : ∃ mem, prepareRecv q' true recv mem = some ((c.node b.receiver).reqs q').prep
  hostSrc : ∃ tseg, recv.hostSrc = some ⟨b.dst, tseg⟩
  recvLen : recv.len.toNat = b.len
  clientKey : recv.clientKey = send.clientKey
  /-- The keys are used for nothing else. -/
  ownsServer : (c.node b.sender).OwnsId q send.serverKey
  ownsClient : (c.node b.receiver).OwnsId q' recv.clientKey
  only : ∀ w p, Announces peer c w p recv.clientKey b.receiver → w = b.sender ∧ p = q
  none : ∀ w p, ¬ Announces peer c w p send.serverKey b.sender

/-- Nothing but the writes of request `q` reaches into the buffers, and none of these is given up. -/
def Spares (b : Buffers ν) (q : Nat) (c : Cluster ν) : Act ν Action (Carry ν) → Prop
  | .env (.store w addr _) => ¬ b.Has w addr
  | .env (.copy i j) => ∀ p byte, c.env.flight[i]? = some p → p.todo[j]? = some byte →
      (p.src = b.sender ∧ p.req = q) ∨ ¬ b.Has p.dst byte.2
  | .env (.fail i) => ∀ p, c.env.flight[i]? = some p →
      ¬(p.src = b.sender ∧ p.req = q ∧ p.opcode = .write)
  | _ => True

/-- From the call of the send on, the world spares the buffers. -/
def Fenced (b : Buffers ν) (q : Nat) (c : Cluster ν) (x : Act ν Action (Carry ν)) : Prop :=
  ((c.node b.sender).reqs q).prep.tasks ≠ [] → Spares b q c x

/-! ## The bytes

Every byte of a posted write is in place, or yet to be copied. -/

/-- Whatever request `q` posts copies from one buffer to the same offsets of the other.  It is what
    the fence needs of a send: whose memory it touches, and where. -/
def WritesInto (peer : ν → Ptr → ν) (b : Buffers ν) (q : Nat) (c : Cluster ν) : Prop :=
  ∀ op k queue wr st, .post q op k queue wr st ∈ (c.node b.sender).trace →
    peer b.sender wr.tjetty = b.receiver ∧ ∀ x ∈ wr.copies, op = .write ∧ ∃ o < b.len,
      x = (b.src + BitVec.ofNat 64 o, b.dst + BitVec.ofNat 64 o)

/-- A byte of an accepted post is in place, or yet to be copied.  The two memories are compared as
    they are now, so the sender's buffer must still be what was sent. -/
def InPlace (b : Buffers ν) (q : Nat) (c : Cluster ν) : Prop :=
  ∀ op k queue wr, .post q op k queue wr urmaSuccess ∈ (c.node b.sender).trace →
    ∀ x ∈ wr.copies, c.env.memory b.receiver x.2 = c.env.memory b.sender x.1 ∨
      ∃ p ∈ c.env.flight, (p.src = b.sender ∧ p.req = q ∧ p.wr = wr) ∧ x ∈ p.todo

section Bytes

variable {b : Buffers ν} {q : Nat} {c c' : Cluster ν} {ok : Cluster ν → Act ν Action (Carry ν) → Prop}

/-- A store outside the buffers leaves both ends of every copy. -/
theorem poke_outside (m : ν → BitVec 64 → BitVec 8) {w : ν} {addr : BitVec 64} (byte : BitVec 8)
    (h : ¬ b.Has w addr) {x : BitVec 64 × BitVec 64} {o : Nat} (ho : o < b.len)
    (hx : x = (b.src + BitVec.ofNat 64 o, b.dst + BitVec.ofNat 64 o)) :
    Fabric.poke m w addr byte b.receiver x.2 = m b.receiver x.2 ∧
      Fabric.poke m w addr byte b.sender x.1 = m b.sender x.1 := by
  obtain rfl := hx
  refine ⟨Fabric.poke_ne fun hw => h (.inr ⟨hw.1.symm, o, ho, hw.2.symm⟩),
    Fabric.poke_ne fun hw => h (.inl ⟨hw.1.symm, o, ho, hw.2.symm⟩)⟩

/-- A step of a node leaves the memory, and hands over the writes it posts with all their bytes yet
    to copy. -/
theorem InPlace.node {w : ν} {a : Action} (h : InPlace b q c)
    (hs : (wiring peer).net c (.node w a) = some c') : InPlace b q c' := by
  obtain ⟨s, f, hstep, hnote, rfl⟩ := Wiring.net_node hs
  have hn := Fabric.noted hstep hnote
  have hmemory : f.memory = c.env.memory := by cases hn <;> rfl
  have hflight : ∀ p ∈ c.env.flight, p ∈ f.flight := by
    cases hn with
    | post => exact fun p hp => List.mem_append_left _ hp
    | _ => exact fun p hp => hp
  intro op k queue wr hpost x hx
  show f.memory b.receiver x.2 = f.memory b.sender x.1 ∨ _
  rw [hmemory]
  have hold : .post q op k queue wr urmaSuccess ∈ (c.node b.sender).trace →
      c.env.memory b.receiver x.2 = c.env.memory b.sender x.1 ∨
        ∃ p ∈ f.flight, (p.src = b.sender ∧ p.req = q ∧ p.wr = wr) ∧ x ∈ p.todo := by
    intro hpost
    rcases h op k queue wr hpost x hx with heq | ⟨p, hp, hrest⟩
    · exact .inl heq
    · exact .inr ⟨p, hflight p hp, hrest⟩
  by_cases hw : b.sender = w
  · subst hw
    simp only [Function.update_self] at hpost
    cases hn with
    | quiet _ htrace hev =>
      rw [htrace] at hpost
      exact hold ((List.mem_append.mp hpost).resolve_right fun hmem => by cases hev _ hmem)
    | post _ htrace =>
      rw [htrace] at hpost
      rcases List.mem_append.mp hpost with hmem | hmem
      · exact hold hmem
      · cases List.mem_singleton.mp hmem
        exact .inr ⟨⟨b.sender, peer b.sender wr.tjetty, q, op, k, wr, wr.copies⟩,
          List.mem_append_right _ (by simp [Fabric.accepts]), ⟨rfl, rfl, rfl⟩, hx⟩
    | sent _ _ htrace hev | received _ _ _ htrace hev =>
      rw [htrace] at hpost
      rcases List.mem_append.mp hpost with hmem | hmem
      · exact hold hmem
      · rcases List.mem_cons.mp hmem with heq | hmem
        · cases heq
        · cases hev _ hmem
  · simp only [Function.update_of_ne hw] at hpost
    exact hold hpost

omit [DecidableEq ν] in
/-- What is yet to be copied for the transfer goes from one buffer to the other. -/
theorem WritesInto.todo (hw : WritesInto peer b q c)
    (hbacked : Backed peer b.sender (c.node b.sender) c.env) {p : Packet ν} (hp : p ∈ c.env.flight)
    (hsrc : p.src = b.sender) (hreq : p.req = q) {x : BitVec 64 × BitVec 64} (hx : x ∈ p.todo) :
    p.dst = b.receiver ∧ p.opcode = .write ∧
      ∃ o < b.len, x = (b.src + BitVec.ofNat 64 o, b.dst + BitVec.ofNat 64 o) := by
  obtain ⟨⟨queue, hpost⟩, hdst, htodo⟩ := hbacked p hp hsrc
  rw [hreq] at hpost
  obtain ⟨hroute, hcopies⟩ := hw _ _ queue p.wr _ hpost
  exact ⟨hdst.trans hroute, hcopies x (htodo x hx)⟩

/-- The byte `x` of the write `wr` is yet to be copied: the second half of `InPlace`. -/
def UnderWay (b : Buffers ν) (q : Nat) (wr : UrmaJfsWr) (x : BitVec 64 × BitVec 64)
    (flight : List (Packet ν)) : Prop :=
  ∃ p ∈ flight, (p.src = b.sender ∧ p.req = q ∧ p.wr = wr) ∧ x ∈ p.todo

omit [DecidableEq ν] in
/-- A packet that goes takes only the bytes with it that it has yet to copy. -/
theorem UnderWay.drop {wr : UrmaJfsWr} {x : BitVec 64 × BitVec 64} {before after : List (Packet ν)}
    {p : Packet ν} (h : UnderWay b q wr x (before ++ p :: after))
    (hno : p.src = b.sender → p.req = q → x ∉ p.todo) : UnderWay b q wr x (before ++ after) := by
  obtain ⟨p', hp', hown, hmem⟩ := h
  rcases List.mem_append.mp hp' with hp' | hp'
  · exact ⟨p', List.mem_append_left _ hp', hown, hmem⟩
  · rcases List.mem_cons.mp hp' with rfl | hp'
    · exact absurd hmem (hno hown.1 hown.2.1)
    · exact ⟨p', List.mem_append_right _ hp', hown, hmem⟩

omit [DecidableEq ν] in
/-- A byte that is under way stays so, unless it is the one that is copied. -/
theorem UnderWay.copy {wr : UrmaJfsWr} {x byte : BitVec 64 × BitVec 64}
    {before after : List (Packet ν)} {p : Packet ν} {left right : List (BitVec 64 × BitVec 64)}
    (h : UnderWay b q wr x (before ++ p :: after)) (htodo : p.todo = left ++ byte :: right) :
    (x = byte ∧ p.src = b.sender ∧ p.req = q) ∨
      UnderWay b q wr x (before ++ { p with todo := left ++ right } :: after) := by
  obtain ⟨p', hp', hown, hmem⟩ := h
  rcases List.mem_append.mp hp' with hp' | hp'
  · exact .inr ⟨p', List.mem_append_left _ hp', hown, hmem⟩
  · rcases List.mem_cons.mp hp' with rfl | hp'
    · have hset : { p' with todo := left ++ right } ∈
          before ++ { p' with todo := left ++ right } :: after := by simp
      rw [htodo, List.mem_append, List.mem_cons] at hmem
      rcases hmem with hmem | rfl | hmem
      · exact .inr ⟨_, hset, hown, List.mem_append_left _ hmem⟩
      · exact .inl ⟨rfl, hown.1, hown.2.1⟩
      · exact .inr ⟨_, hset, hown, List.mem_append_right _ hmem⟩
    · exact .inr ⟨p', List.mem_append_right _ (List.mem_cons_of_mem _ hp'), hown, hmem⟩

/-- A byte of the transfer is copied: to the same offset of the other buffer.  As the buffers are
    apart, no other byte of the transfer changes, and none is written over before it is copied. -/
theorem agree_copied {m : ν → BitVec 64 → BitVec 8} {dst : ν} {x byte : BitVec 64 × BitVec 64}
    {o o' : Nat} (happart : b.Apart) (hlen : b.len ≤ 2 ^ 32) (hdst : dst = b.receiver)
    (ho : o < b.len) (hx : x = (b.src + BitVec.ofNat 64 o, b.dst + BitVec.ofNat 64 o))
    (ho' : o' < b.len) (hb : byte = (b.src + BitVec.ofNat 64 o', b.dst + BitVec.ofNat 64 o'))
    (h : x ≠ byte → m b.receiver x.2 = m b.sender x.1) :
    Fabric.poke m dst byte.2 (m b.sender byte.1) b.receiver x.2
      = Fabric.poke m dst byte.2 (m b.sender byte.1) b.sender x.1 := by
  subst hdst
  have hsource : ¬(b.sender = b.receiver ∧ x.1 = byte.2) := by
    rintro ⟨hnode, haddr⟩
    refine happart hnode o ho o' ho' ?_
    rw [hx, hb] at haddr
    exact haddr
  rw [Fabric.poke_ne hsource]
  by_cases htarget : x.2 = byte.2
  · have hoff : o = o' := by
      rw [hx, hb] at htarget
      have hnat := congrArg BitVec.toNat ((BitVec.add_right_inj b.dst).mp htarget)
      rw [BitVec.toNat_ofNat, BitVec.toNat_ofNat] at hnat
      omega
    have hsame : x = byte := by rw [hx, hb, hoff]
    rw [hsame, Fabric.poke_self]
  · rw [Fabric.poke_ne fun hx => htarget hx.2]
    exact h fun hsame => htarget (hsame ▸ rfl)

/-- A step of the provider, or of an application. -/
theorem InPlace.env {y : Carry ν} (happart : b.Apart) (hlen : b.len ≤ 2 ^ 32) (h : InPlace b q c)
    (hr : (clusterSystem peer workers capacity memory).Reach ok c) (hw : WritesInto peer b q c)
    (hy : Fenced b q c (.env y)) (hs : (wiring peer).net c (.env y) = some c') :
    InPlace b q c' := by
  obtain ⟨f, hmove, rfl⟩ := Wiring.net_env hs
  have hbacked := backed_reach hr b.sender
  intro op k queue wr hpost x hx
  -- what has posted has been called
  have hy := hy (posted_reach (reach_alone hr b.sender) _ _ _ _ _ _ hpost).1
  obtain ⟨-, o, ho, hxo⟩ := (hw op k queue wr _ hpost).2 x hx
  have hold : c.env.memory b.receiver x.2 = c.env.memory b.sender x.1 ∨
      UnderWay b q wr x c.env.flight := h op k queue wr hpost x hx
  cases Fabric.carried hmove with
  | @copy i j p before after byte left right hp hflight hbyte htodo =>
    have hpmem : p ∈ c.env.flight := hflight ▸ by simp
    have hbmem : byte ∈ p.todo := htodo ▸ by simp
    have hkeep := hold.imp_right fun hway => (hflight ▸ hway).copy htodo
    rcases hy p byte hp hbyte with ⟨hsrc, hreq⟩ | hout
    · obtain ⟨hdst, -, o', ho', hbo⟩ := hw.todo hbacked hpmem hsrc hreq hbmem
      by_cases hsame : x = byte
      · left
        show Fabric.poke _ _ _ _ b.receiver x.2 = Fabric.poke _ _ _ _ b.sender x.1
        rw [hsrc]
        exact agree_copied happart hlen hdst ho hxo ho' hbo fun hne => absurd hsame hne
      · rcases hkeep with heq | ⟨rfl, -⟩ | hway
        · left
          show Fabric.poke _ _ _ _ b.receiver x.2 = Fabric.poke _ _ _ _ b.sender x.1
          rw [hsrc]
          exact agree_copied happart hlen hdst ho hxo ho' hbo fun _ => heq
        · exact absurd rfl hsame
        · exact .inr hway
    · obtain ⟨h₁, h₂⟩ := poke_outside c.env.memory (c.env.memory p.src byte.1) hout ho hxo
      show Fabric.poke _ _ _ _ b.receiver x.2 = Fabric.poke _ _ _ _ b.sender x.1 ∨ _
      rw [h₁, h₂]
      rcases hkeep with heq | ⟨rfl, hsrc, hreq⟩ | hway
      · exact .inl heq
      · -- a byte of the transfer does reach into the buffer
        obtain ⟨hdst, -, o', ho', hbo⟩ := hw.todo hbacked hpmem hsrc hreq hbmem
        exact absurd (.inr ⟨hdst, o', ho', by rw [hbo]⟩) hout
      · exact .inr hway
  | @finish i p before after hflight htodo =>
    refine hold.imp_right fun hway => (hflight ▸ hway).drop fun _ _ hmem => ?_
    rw [htodo] at hmem
    cases hmem
  | @deliver i imm posted p before after hflight hann =>
    refine hold.imp_right fun hway => (hflight ▸ hway).drop fun hsrc _ hmem => ?_
    -- a work request with an immediate has no bytes
    have hcopies := (hbacked p (hflight ▸ by simp) hsrc).2.2 x hmem
    unfold UrmaJfsWr.copies at hcopies
    unfold UrmaJfsWr.announces at hann
    split at hann
    · cases hann
    · rename_i imm' himm
      rw [himm] at hcopies
      cases hcopies
  | @fail i p before after hp hflight =>
    refine hold.imp_right fun hway => (hflight ▸ hway).drop fun hsrc hreq hmem => ?_
    have hopcode := (hw.todo hbacked (hflight ▸ by simp) hsrc hreq hmem).2.1
    exact hy p hp ⟨hsrc, hreq, hopcode⟩
  | @store w addr byte =>
    obtain ⟨h₁, h₂⟩ := poke_outside c.env.memory byte hy ho hxo
    simp only [h₁, h₂]
    exact hold
  | internal => exact hold

/-- In every run that spares the buffers a byte posted is in place, or yet to be copied. -/
theorem inPlace_reach (happart : b.Apart) (hlen : b.len ≤ 2 ^ 32)
    (hguard : ∀ c x, ok c x → Fenced b q c x)
    (h : (clusterSystem peer workers capacity memory).Reach ok c) :
    WritesInto peer b q c → InPlace b q c := by
  have hback : ∀ c x c', (wiring peer).net c x = some c' → WritesInto peer b q c' →
      WritesInto peer b q c :=
    fun c x c' hs hw op k queue wr st hpost => hw op k queue wr st (mem_trace_step hs hpost)
  refine h.invariant_while (fun c x c' _ hs hw => hback c x c' hs hw) ?_ ?_
  · rintro c rfl _ op k queue wr hpost
    cases hpost
  · intro c x c' hr hw hI hx hs
    cases x with
    | node w a => exact hI.node hs
    | env y =>
      exact hI.env happart hlen hr (hback c _ c' hs hw) (hguard c _ hx) hs

end Bytes

/-! ## Who notifies whom

A completion that wakes a task of the receive was announced by this send, if no other send has its
key. -/

section Keys

variable {ok : Cluster ν → Act ν Action (Carry ν) → Prop} {c c' : Cluster ν}

/-- A request stays what it is. -/
theorem prep_kept (h : (clusterSystem peer workers capacity memory).Reach ok c)
    {x : Act ν Action (Carry ν)} (hs : (wiring peer).net c x = some c') {w : ν} {q : Nat}
    (hmade : ((c.node w).reqs q).prep.tasks ≠ []) :
    ((c'.node w).reqs q).prep = ((c.node w).reqs q).prep := by
  cases x with
  | env y =>
    obtain ⟨f, -, rfl⟩ := Wiring.net_env hs
    rfl
  | node w' a =>
    obtain ⟨s, f, hstep, -, rfl⟩ := Wiring.net_node hs
    by_cases hw : w = w'
    · subst hw
      simp only [Function.update_self]
      exact keepsMade_step (reach_alone h w) hstep q hmade
    · simp only [Function.update_of_ne hw]

/-- What a request announces it goes on announcing. -/
theorem Announces.step (h : (clusterSystem peer workers capacity memory).Reach ok c)
    {x : Act ν Action (Carry ν)} (hs : (wiring peer).net c x = some c') {w v : ν} {q : Nat}
    {key : ReqId} (ha : Announces peer c w q key v) : Announces peer c' w q key v := by
  obtain ⟨call, mem, info, hsend, hrest⟩ := ha
  refine ⟨call, mem, info, ?_, hrest⟩
  rw [prep_kept h hs (prepareSend_wellFormed hsend).tasks_ne_nil, hsend]

/-- The immediates a node gets name a client key under which some request notifies it. -/
theorem Sent.announces (h : (clusterSystem peer workers capacity memory).Reach ok c) {v : ν}
    {imm : BitVec 64} (hsent : Sent peer c v imm) :
    ∃ w q k queue wr key n, .post q .sendImm k queue wr urmaSuccess ∈ (c.node w).trace ∧
      Announces peer c w q key v ∧ isRequestIdValid key = true ∧ k < 8 ∧
      receivedUserData imm = chunkTag (key.setWidth 60) n k := by
  obtain ⟨w, q, op, k, queue, wr, hpost, hroute, posted, hposted, hsurvives⟩ := hsent
  have hr := reach_alone h w
  obtain ⟨rfl, hk, call, mem, hsend, rfl⟩ := announced_of_posted hr hpost hposted
  obtain ⟨-, -, hkey, jettyInfo, localSrc, remoteDst, chunks, hjetty, -, -, -, -, hp⟩ :=
    prepareSend_eq_some hsend
  have hle := (prepareSend_wellFormed hsend).chunks_le
  have hmax : maxChunkNum = 7 := rfl
  refine ⟨w, q, k, queue, wr, call.clientKey, ((c.node w).reqs q).prep.chunks.length, hpost,
    ⟨call, mem, jettyInfo, hsend, rfl, hjetty, ?_⟩, hkey, by omega,
    receivedUserData_of_survives hkey hsurvives⟩
  rw [← hroute, tjetty_of_posted hr hpost hsend hjetty]

variable {b : Buffers ν} {q q' : Nat} {send : SendCall} {recv : RecvCall}

/-- A receive completion that carries the key of a request was notified under that key. -/
theorem decodedId_of_sent {cr : UrmaCr} {key : ReqId} {n k : Nat} (hkey : isRequestIdValid key = true)
    (hdata : receivedUserData cr.immData = chunkTag (key.setWidth 60) n k) : cr.decodedId = key := by
  have hid : cr.decodedId.setWidth 60 = key.setWidth 60 := congrArg UserData.requestId hdata
  have hdecoded : isRequestIdValid cr.decodedId = true := decodeRequestId_valid _
  rw [← setWidth_valid hdecoded, hid, setWidth_valid hkey]

/-- The sender of a transfer is never notified under the server key, and the completions it handles
    are of what it has posted. -/
theorem Transfer.reach_sender (okNode : Transport → Action → Prop)
    (hok : ∀ c a, ok c (.node b.sender a) → okNode (c.node b.sender) a)
    (h : (clusterSystem peer workers capacity memory).Reach ok c)
    (ht : Transfer peer b q q' send recv c) :
    (transportSystem (workers b.sender) (capacity b.sender)).Reach
      (fun s a => SendGuard send.serverKey s a ∧ okNode s a) (c.node b.sender) := by
  have hback : ∀ c x c', (clusterSystem peer workers capacity memory).Reach ok c →
      (wiring peer).net c x = some c' →
      (∀ w p, ¬ Announces peer c' w p send.serverKey b.sender) →
      ∀ w p, ¬ Announces peer c w p send.serverKey b.sender :=
    fun c x c' hr hs hno w p ha => hno w p (ha.step hr hs)
  refine reach_transport _ b.sender ?_ (h.throughout hback ht.none)
  intro c a hr hx hraised
  refine ⟨?_, hok c a hx.1⟩
  cases a with
  | completion k cr status =>
    refine ⟨fun hside hid => ?_, hraised.2⟩
    obtain ⟨w, p, k', queue, wr, key, n, -, ha, hvalid, -, htag⟩ := (hraised.1 hside).announces hr
    rw [decodedId_of_sent hvalid htag] at hid
    exact hx.2 w p (hid ▸ ha)
  | _ => trivial

/-- What the receiver has noticed the sender has posted. -/
theorem Transfer.notified (h : (clusterSystem peer workers capacity memory).Reach ok c)
    (ht : Transfer peer b q q' send recv c) {i : Nat}
    (hi : (∃ w, (c.node b.receiver).Executes w ⟨q', i⟩) ∨
      callbacksOf ⟨q', i⟩ (c.node b.receiver).trace ≠ []) :
    ∃ queue wr, .post q .sendImm i queue wr urmaSuccess ∈ (c.node b.sender).trace := by
  obtain ⟨mem, hrecv⟩ := ht.received
  obtain ⟨cb, hreceives⟩ := receives hrecv
  have hr := reach_alone h b.receiver
  obtain ⟨hlt, cr, hcr, htag⟩ := noticed hr hreceives hi
  have hvalid : isRequestIdValid recv.clientKey = true := (prepareRecv_eq_some hrecv).2.1
  have hle := hreceives.wellFormed.chunks_le
  have hmax : maxChunkNum = 7 := rfl
  by_cases hside : cr.sR = true
  · -- a notification: nobody else uses the key
    obtain ⟨w, p, k, queue, wr, key, n, hpost, ha, hkey, hk, hexpected⟩ :=
      (sent_reach h _ _ (.inr ⟨cr, hcr, hside, rfl⟩)).announces h
    have hdata : receivedUserData cr.immData =
        chunkTag (recv.clientKey.setWidth 60) ((c.node b.receiver).reqs q').prep.chunks.length i := by
      unfold Transport.wakeUpUserData at htag
      rw [if_pos hside] at htag
      obtain ⟨-, htag⟩ := Option.ite_none_right_eq_some.mp htag
      exact Option.some.inj htag
    have himm : expectedImm64 key n k = expectedImm64 recv.clientKey
        ((c.node b.receiver).reqs q').prep.chunks.length i := by
      rw [← userCtx_chunkTag, ← userCtx_chunkTag, ← hexpected, hdata]
    obtain ⟨rfl, rfl⟩ := expectedImm64_inj hkey hvalid hk (by omega) himm
    obtain ⟨rfl, rfl⟩ := ht.only w p ha
    exact ⟨queue, wr, hpost⟩
  · -- the local completion of a write of the receiver's: its request would be a send
    have hlocal : cr.sR = false := Bool.eq_false_iff.mpr hside
    have hbal := balance_reach h b.receiver
    have hpos := List.count_pos_iff.mpr (mem_handledTags hcr hlocal)
    have hposted := hbal.posted cr.userCtx
    have haccepted : 0 < (acceptedTags (c.node b.receiver).trace).count cr.userCtx := by omega
    obtain ⟨p, op, k, queue, wr, hpost, hctx⟩ :=
      mem_acceptedTags.mp (List.count_pos_iff.mp haccepted)
    obtain ⟨⟨writeInfo, hinfo⟩, hreqId⟩ := tagged_reach hr hpost
    have hmade := (posted_reach hr _ _ _ _ _ _ hpost).1
    have hid : ((c.node b.receiver).reqs p).prep.requestId = recv.clientKey := by
      unfold Transport.wakeUpUserData at htag
      rw [if_neg hside] at htag
      obtain ⟨-, htag⟩ := Option.ite_none_left_eq_some.mp htag
      rw [← hreqId, hctx, Option.some.inj htag]
      exact setWidth_valid hvalid
    obtain rfl := (ht.ownsClient p hmade).mp hid
    obtain ⟨-, -, _, _, _, -, -, -, -, hp⟩ := prepareRecv_eq_some hrecv
    rw [hp] at hinfo
    cases hinfo

end Keys

/-! ## The data

The chunk that a callback is told of is there. -/

section Data

variable {ok : Cluster ν → Act ν Action (Carry ν) → Prop} {c : Cluster ν} {b : Buffers ν} {q q' : Nat}
  {send : SendCall} {recv : RecvCall}

/-- A send from one buffer to the other writes into its place. -/
theorem Sending.writesInto (h : (clusterSystem peer workers capacity memory).Reach ok c)
    (ht : Sending peer b q send c) : WritesInto peer b q c := by
  obtain ⟨mem, hsend⟩ := ht.sent
  have hr := reach_alone h b.sender
  obtain ⟨-, -, -, jettyInfo, localSrc, remoteDst, chunks, hjetty, hsrc, hdst, hsplit, htwo, hp⟩ :=
    prepareSend_eq_some hsend
  obtain ⟨tseg, hsrc'⟩ := ht.localSrc
  obtain ⟨tseg', hdst'⟩ := ht.remoteDst
  obtain rfl := Option.some.inj (hsrc'.symm.trans hsrc)
  obtain rfl := Option.some.inj (hdst'.symm.trans hdst)
  have hchunks : ((c.node b.sender).reqs q).prep.chunks = chunks := by
    rw [hp]
    rfl
  obtain ⟨-, -, -, hchunk⟩ := commonSplitChunks_eq_some hsplit (by omega)
  intro op k queue wr st hpost
  refine ⟨?_, fun x hx => ?_⟩
  · rw [tjetty_of_posted hr hpost hsend hjetty]
    exact ht.route jettyInfo hjetty
  · obtain ⟨-, writeInfo, -, hwr⟩ := posted_reach hr _ _ _ _ _ _ hpost
    rw [hchunks] at hwr
    rw [copies_of_sendWr hwr] at hx
    cases op with
    | sendImm => cases hx
    | write =>
      cases hget : chunks[k]? with
      | none =>
        rw [placeCopies, hget] at hx
        cases hx
      | some chunk =>
        obtain ⟨hs, hd, hl⟩ := hchunk k chunk hget
        rw [placeCopies, hget] at hx
        obtain ⟨j, hj, rfl⟩ := List.mem_map.mp hx
        have hjlt := List.mem_range.mp hj
        have hlen := ht.sendLen
        refine ⟨rfl, k * 2097152 + j, by omega, ?_⟩
        rw [hs, hd, BitVec.ofNat_add, ← BitVec.add_assoc, ← BitVec.add_assoc]

/-- Once the notify of a chunk is posted, the chunk is where it belongs. -/
theorem Transfer.in_place (happart : b.Apart) (hguard : ∀ c x, ok c x → Fenced b q c x)
    (h : (clusterSystem peer workers capacity memory).Reach ok c)
    (ht : Transfer peer b q q' send recv c) {i : Nat} {queue : SendQueue} {wr : UrmaJfsWr}
    {st : UrmaStatus} (hpost : .post q .sendImm i queue wr st ∈ (c.node b.sender).trace) {o : Nat}
    (ho : o < b.len) (hi : o / defaultChunkSize.toNat = i) : b.Agree c.env.memory o := by
  obtain ⟨mem, hsend⟩ := ht.sent
  have hr := (ht.reach_sender (fun _ _ => True) (fun _ _ _ => trivial) h).mono fun _ _ hx => hx.1
  obtain ⟨-, -, -, jettyInfo, localSrc, remoteDst, chunks, -, hsrc, hdst, hsplit, htwo, hp⟩ :=
    prepareSend_eq_some hsend
  obtain ⟨tseg, hsrc'⟩ := ht.localSrc
  obtain ⟨tseg', hdst'⟩ := ht.remoteDst
  obtain rfl := Option.some.inj (hsrc'.symm.trans hsrc)
  obtain rfl := Option.some.inj (hdst'.symm.trans hdst)
  have hlen := ht.sendLen
  have hinfo : ∃ writeInfo, ((c.node b.sender).reqs q).prep.urmaInfo = .write writeInfo := by
    rw [hp]
    exact ⟨_, rfl⟩
  obtain ⟨writeInfo, hinfo⟩ := hinfo
  have hchunks : ((c.node b.sender).reqs q).prep.chunks = chunks := by
    rw [hp]
    rfl
  obtain ⟨-, -, hcount, hchunk⟩ := commonSplitChunks_eq_some hsplit (by omega)
  -- its write was posted, and completed
  obtain ⟨queue', wr', cr, hside, htag, hsub⟩ :=
    completed_of_notify (fun _ _ hx => hx) hr ht.ownsServer hinfo hpost
  have hwrite : .post q .write i queue' wr' urmaSuccess ∈ (c.node b.sender).trace :=
    hsub.subset List.mem_cons_self
  have hcr : .completion cr ∈ (c.node b.sender).trace :=
    hsub.subset (List.mem_cons_of_mem _ (List.mem_singleton_self _))
  -- so none of it is under way
  have hbal := balance_reach h b.sender
  have honce := accepted_once (fun _ _ hx => hx) hr ht.ownsServer hinfo hwrite
  have hhandled := List.count_pos_iff.mpr (mem_handledTags hcr hside)
  have hposted := hbal.posted wr'.userCtx
  have howed := hbal.owed wr'.userCtx
  rw [htag] at hhandled
  have hnone : (flightTags b.sender c.env.flight).count wr'.userCtx = 0 := by omega
  have hmem : (b.src + BitVec.ofNat 64 o, b.dst + BitVec.ofNat 64 o) ∈ wr'.copies := by
    obtain ⟨-, writeInfo', -, hwr⟩ := posted_reach hr _ _ _ _ _ _ hwrite
    rw [hchunks] at hwr
    have hsize := defaultChunkSize_toNat
    rw [hsize] at hi
    obtain ⟨start, hstart⟩ : ∃ start, start = i * 2097152 := ⟨_, rfl⟩
    obtain ⟨j, hj⟩ : ∃ j, o = start + j := ⟨o - start, by omega⟩
    have hget := List.getElem?_eq_getElem (show i < chunks.length by omega)
    obtain ⟨hs, hd, hl⟩ := hchunk i _ hget
    rw [← hstart] at hs hd hl
    rw [copies_of_sendWr hwr, placeCopies, hget]
    refine List.mem_map.mpr ⟨j, List.mem_range.mpr (by omega), ?_⟩
    rw [hs, hd, hj, BitVec.ofNat_add, ← BitVec.add_assoc, ← BitVec.add_assoc]
  have hlen32 : b.len ≤ 2 ^ 32 := by
    rw [← hlen]
    exact send.len.isLt.le
  rcases inPlace_reach happart hlen32 hguard h (ht.toSending.writesInto h) _ _ _ _ hwrite _ hmem with
    heq | ⟨p, hp, ⟨hpsrc, -, hpwr⟩, -⟩
  · exact heq
  · refine absurd hnone (Nat.pos_iff_ne_zero.mp (List.count_pos_iff.mpr ?_))
    exact List.mem_map.mpr ⟨p, List.mem_filter.mpr ⟨hp, by simpa using hpsrc⟩, by rw [hpwr]⟩

end Data

/-! ## A transfer of two chunks

Node `false` sends two chunks to node `true`; nothing else happens. -/

/-- The receiving half of it; `plainSend` is the other. -/
def pairRecv : RecvCall := { plainRecv 2097153#32 with hostSrc := some ⟨0x2000#64, some 3⟩ }

def pairBuffers : Buffers Bool := ⟨false, 0x1000#64, true, 0x2000#64, 2097153⟩

/-- The two buffers are on two nodes. -/
theorem pairBuffers_apart : pairBuffers.Apart := fun h => absurd h Bool.false_ne_true

/-- Either node reaches the other. -/
def pairPeer (v : Bool) (_ : Ptr) : Bool := !v

/-- One worker a node. -/
def pairSystem : System (Cluster Bool) (Act Bool Action (Carry Bool)) :=
  clusterSystem pairPeer (fun _ => 1) (fun _ => 1#32) fun _ _ => 0#8

/-- What node `v` does, `as`. -/
def onNode (v : Bool) (as : List Action) : List (Option (Act Bool Action (Carry Bool))) :=
  as.map fun a => some (.node v a)

/-- Both calls, up to their return. -/
def pairCalls : List (Option (Act Bool Action (Carry Bool))) :=
  onNode true (.callRecv 0 pairRecv true .ok :: List.replicate 7 (.caller 0 .ok [])) ++
    onNode false (.callSend 0 (plainSend 2097153#32) true .ok ::
      List.replicate 7 (.caller 0 .ok []))

/-- The write of chunk `i` is copied and ends; its task on the sender takes `n` steps. -/
def pairWrite (i n : Nat) : List (Option (Act Bool Action (Carry Bool))) :=
  [none, some (.env (.finish 0))] ++
    onNode false ([.completion 0 ⟨0, false, 0, (chunkTag 7#60 2 i).userCtx, 0#64⟩ urmaSuccess,
      .wake 0 .ok, .wake 0 .ok] ++ List.replicate n (.worker 0 0))

/-- The notify of chunk `i` arrives, and wakes its task on the receiver. -/
def pairNotify (i : Nat) : List (Option (Act Bool Action (Carry Bool))) :=
  let imm := (chunkTag ((encodeRequestId 8#64).setWidth 60) 2 i).userCtx
  some (.env (.deliver 0 imm)) ::
    onNode true ([.completion 0 ⟨0, true, urmaCrOpcSendWithImm, 0#64, imm⟩ urmaSuccess,
      .wake 0 .ok, .wake 0 .ok] ++ List.replicate 5 (.worker 0 0))

/-- Both waits. -/
def pairWaits : List (Option (Act Bool Action (Carry Bool))) :=
  [false, true].flatMap fun v =>
    onNode v (.callWait 0 false :: List.replicate 3 (.owner 0 .woken))

/-- From the calls to the returns of both waits. -/
def pairRun : List (Option (Act Bool Action (Carry Bool))) :=
  pairCalls ++ pairWrite 0 7 ++ pairNotify 0 ++ pairWrite 1 6 ++ pairNotify 1 ++ pairWaits

def pairStart : Cluster Bool := ⟨fun _ => Transport.start 1 1#32, ⟨fun _ _ => 0#8, [], [], []⟩⟩

/-- Only request 0 of either node is made, and the provider copies for the sender. -/
def pairOk (c : Cluster Bool) : Option (Act Bool Action (Carry Bool)) → Bool
  | none => c.env.flight.all fun p => p.src == false && p.req == 0
  | some (.node _ (.callSend q _ _ _)) => q == 0
  | some (.node _ (.callRecv q _ _ _)) => q == 0
  | some (.node _ _) => true
  | some (.env (.finish _)) => true
  | some (.env (.deliver _ _)) => true
  | some (.env _) => false

/-- Only request 0 of either node is made. -/
def PairSingle (c : Cluster Bool) (x : Act Bool Action (Carry Bool)) : Prop :=
  ∀ v a, x = .node v a → SingleRequest 0 (c.node v) a

/-- The same, and nothing disturbs the transfer. -/
def PairGuard (c : Cluster Bool) (x : Act Bool Action (Carry Bool)) : Prop :=
  Fenced pairBuffers 0 c x ∧ PairSingle c x

/-- Both calls were made. -/
def pairMade (node : Bool → Transport) : Bool :=
  decide (prepareSend 0 true (plainSend 2097153#32) true = some ((node false).reqs 0).prep) &&
    decide (prepareRecv 0 true pairRecv true = some ((node true).reqs 0).prep) &&
    ((node false).reqs 0).prep.requestId == 7#64 && ((node true).reqs 0).prep.requestId == 8#64

/-- Both waits report success, and the last chunk has been reported. -/
def pairDone (node : Bool → Transport) : Bool :=
  pairMade node && (((node false).reqs 0).owner == .returned (.waited .ok urmaSuccess) &&
    ((node true).reqs 0).owner == .returned (.waited .ok urmaSuccess) &&
    (callbacksOf ⟨0, 1⟩ (node true).trace).length == 1)

/-- The test of a step against the conditions. -/
theorem pairOk_guard (c : Cluster Bool) (x : Act Bool Action (Carry Bool))
    (m : Bool → BitVec 64 → BitVec 8) (h : pairOk c (some x) = true) :
    Act.steady x = true ∧ PairGuard (c.withMemory m) x := by
  cases x with
  | node v a =>
    refine ⟨rfl, fun _ => trivial, fun v' a' hx => ?_⟩
    cases hx
    cases a with
    | callSend | callRecv => exact beq_iff_eq.mp h
    | _ => trivial
  | env y =>
    cases y with
    | finish | deliver => exact ⟨rfl, fun _ => trivial, fun v a hx => by cases hx⟩
    | _ => cases h

/-- In such a run request 0 of node `false` is the only one that notifies node `true`. -/
theorem pair_announces {c : Cluster Bool} (h : pairSystem.Reach PairSingle c) {w v : Bool} {p : Nat}
    {key : ReqId} (ha : Announces pairPeer c w p key v) : w = !v ∧ p = 0 := by
  obtain ⟨call, mem, jettyInfo, hsend, -, -, hpeer⟩ := ha
  refine ⟨by rw [← hpeer]; exact (Bool.not_not w).symm, ?_⟩
  by_contra hne
  have hr := reach_transport (SingleRequest 0) w (fun c a _ hx _ => hx w a rfl) h
  exact (prepareSend_wellFormed hsend).tasks_ne_nil
    ((nodes_reach hr).fresh p (fresh_of_single hr hne))

/-- The two requests are the halves of a transfer. -/
theorem pair_transfer {c : Cluster Bool} (h : pairSystem.Reach PairSingle c)
    (hmade : pairMade c.node = true) :
    Transfer pairPeer pairBuffers 0 0 (plainSend 2097153#32) pairRecv c := by
  simp only [pairMade, Bool.and_eq_true, decide_eq_true_eq, beq_iff_eq] at hmade
  obtain ⟨⟨⟨hsend, hrecv⟩, hserver⟩, hclient⟩ := hmade
  have hids : ∀ v, (c.node v).OwnsId 0 ((c.node v).reqs 0).prep.requestId := fun v =>
    ownsId_of_single (reach_transport _ v (fun c a _ hx _ => hx v a rfl) h)
  have howns := hids false
  have howns' := hids true
  rw [hserver] at howns
  rw [hclient] at howns'
  refine ⟨⟨⟨true, hsend⟩, fun _ _ => rfl, ⟨_, rfl⟩, ⟨_, rfl⟩, rfl⟩, ⟨true, hrecv⟩, ⟨_, rfl⟩, rfl, rfl,
    howns, howns', fun w p ha => pair_announces h ha, fun w p ha => ?_⟩
  -- the receiver sends nothing
  obtain ⟨rfl, rfl⟩ := pair_announces h ha
  obtain ⟨call, mem, -, hsend', -⟩ := ha
  obtain ⟨-, -, -, _, _, _, _, -, -, -, -, -, hp⟩ := prepareSend_eq_some hsend'
  obtain ⟨-, -, _, _, _, -, -, -, -, hp'⟩ := prepareRecv_eq_some hrecv
  have hinfo := congrArg Prepared.urmaInfo (hp.symm.trans hp')
  cases hinfo

/-- Both waits of the pair return, and the last chunk has been called back. -/
theorem pair_reach : ∃ c, pairSystem.Reach PairGuard c ∧ pairMade c.node = true ∧
    ((c.node false).reqs 0).owner = .returned (.waited .ok urmaSuccess) ∧
    ((c.node true).reqs 0).owner = .returned (.waited .ok urmaSuccess) ∧
    callbacksOf ⟨0, 1⟩ (c.node true).trace ≠ [] := by
  have hrun : (exec pairOk (quickStep pairPeer) pairStart pairRun).any
      (fun c => pairDone c.node) = true := by decide +kernel
  obtain ⟨c, hexec, hdone⟩ := exec_any hrun
  have hcopy : ∀ (c : Cluster Bool) i j,
      (∀ p ∈ c.env.flight, p.src = pairBuffers.sender ∧ p.req = 0) → PairGuard c (.env (.copy i j)) :=
    fun c i j howns => ⟨fun _ p byte hp _ => .inl (howns p (List.mem_of_getElem? hp)),
      fun v a hx => by cases hx⟩
  have hinit : pairSystem.Reach PairGuard (pairStart.withMemory fun _ _ => 0#8) := .init rfl
  obtain ⟨m, hr⟩ := quick_reach (fun v q => v = pairBuffers.sender ∧ q = 0) pairOk pairOk_guard
    (fun c hok p hp => by simpa [pairBuffers] using List.all_eq_true.mp hok p hp) hcopy pairRun hinit
    hexec
  simp only [pairDone, Bool.and_eq_true, beq_iff_eq] at hdone
  obtain ⟨hmade, ⟨hsent, hreceived⟩, hcalled⟩ := hdone
  refine ⟨c.withMemory m, hr, hmade, hsent, hreceived, fun hnil => ?_⟩
  have hnil' : callbacksOf ⟨0, 1⟩ (c.node true).trace = [] := hnil
  rw [hnil'] at hcalled
  cases hcalled

/-! ## The promises

What a callback, a receive and a send mean for the bytes. -/

section Promises

variable {ε : Type*} {P : Provider ν ε} {n : Net ν Transport ε} {b : Buffers ν} {q q' : Nat}
  {send : SendCall} {recv : RecvCall}

/-- A task of the receive that runs, or has called back, finds its chunk in memory: where the sender
    has it, whatever the provider, and whatever else the nodes are doing outside the transfer's
    buffers and keys. -/
theorem data_before_callback (hP : P.Lawful) (happart : b.Apart)
    (h : (P.clusterSystem workers capacity memory).Reach (fun n x => Fenced b q (P.seen n) x) n)
    (ht : Transfer P.peer b q q' send recv (P.seen n)) {i : Nat}
    (hi : (∃ w, (n.node b.receiver).Executes w ⟨q', i⟩) ∨
      callbacksOf ⟨q', i⟩ (n.node b.receiver).trace ≠ []) :
    ∀ o < b.len, o / defaultChunkSize.toNat = i → b.Agree (P.view n.env).memory o := by
  have hseen := hP.reach_seen h
  obtain ⟨queue, wr, hpost⟩ := ht.notified hseen hi
  exact fun o ho hoi => ht.in_place happart (fun _ _ hx => hx) hseen hpost ho hoi

/-- The bytes of its last chunk are in place. -/
theorem pair_last_chunk : ∃ c, pairSystem.Reach PairGuard c ∧
    callbacksOf ⟨0, 1⟩ (c.node true).trace ≠ [] ∧
    ∀ o < 2097153, o / defaultChunkSize.toNat = 1 → pairBuffers.Agree c.env.memory o := by
  obtain ⟨c, hr, hmade, -, -, hcalled⟩ := pair_reach
  exact ⟨c, hr, hcalled, data_before_callback (Fabric.provider_lawful pairPeer) pairBuffers_apart
    (hr.mono fun _ _ h => h.1) (pair_transfer (hr.mono fun _ _ h => h.2) hmade) (.inr hcalled)⟩

/-- A receive whose wait reports success has received everything. -/
theorem received_all (hP : P.Lawful) (happart : b.Apart)
    (h : (P.clusterSystem workers capacity memory).Reach (fun n x => Fenced b q (P.seen n) x) n)
    (ht : Transfer P.peer b q q' send recv (P.seen n)) {st : UrmaStatus}
    (hret : ((n.node b.receiver).reqs q').owner = .returned (.waited .ok st)) :
    ∀ o < b.len, b.Agree (P.view n.env).memory o := by
  have hseen := hP.reach_seen h
  obtain ⟨mem, hrecv⟩ := ht.received
  obtain ⟨cb, hreceives⟩ := receives hrecv
  have hr := reach_alone hseen b.receiver
  obtain ⟨-, -, hostSrc, deviceDst, chunks, -, -, hsplit, hpos, hp⟩ := prepareRecv_eq_some hrecv
  have hchunks : (((P.seen n).node b.receiver).reqs q').prep.chunks = chunks := by
    rw [hp]
    rfl
  obtain ⟨-, -, hcount, -⟩ := commonSplitChunks_eq_some hsplit hpos
  have hlen := ht.recvLen
  have htasks := hreceives.wellFormed.tasks_length
  rw [hchunks] at htasks
  intro o ho
  obtain ⟨i, hi⟩ : ∃ i, o / 2097152 = i := ⟨_, rfl⟩
  -- the task of its chunk has succeeded, so it has called back
  have hmark := mark_of_ok hr hret (i := i) (by omega)
  obtain ⟨-, ret, -, hcalls⟩ := marked_recv hr hreceives hmark
  obtain ⟨queue, wr, hpost⟩ :=
    ht.notified hseen (i := i) (.inr (by rw [hcalls]; exact List.cons_ne_nil _ _))
  exact ht.in_place happart (fun _ _ hx => hx) hseen hpost ho (by rw [defaultChunkSize_toNat, hi])

/-- When the receiver's wait has returned all bytes are. -/
theorem pair_received : ∃ c, pairSystem.Reach PairGuard c ∧
    ((c.node true).reqs 0).owner = .returned (.waited .ok urmaSuccess) ∧
    ∀ o < 2097153, pairBuffers.Agree c.env.memory o := by
  obtain ⟨c, hr, hmade, -, hret, -⟩ := pair_reach
  exact ⟨c, hr, hret, received_all (Fabric.provider_lawful pairPeer) pairBuffers_apart
    (hr.mono fun _ _ h => h.1) (pair_transfer (hr.mono fun _ _ h => h.2) hmade) hret⟩

/-- The receiver of a send whose wait reports success has received everything. -/
theorem sent_all (hP : P.Lawful) (happart : b.Apart)
    (h : (P.clusterSystem workers capacity memory).Reach (fun n x => Fenced b q (P.seen n) x) n)
    (ht : Transfer P.peer b q q' send recv (P.seen n)) {st : UrmaStatus}
    (hret : ((n.node b.sender).reqs q).owner = .returned (.waited .ok st)) :
    ∀ o < b.len, b.Agree (P.view n.env).memory o := by
  have hseen := hP.reach_seen h
  obtain ⟨mem, hsend⟩ := ht.sent
  have hr := reach_alone hseen b.sender
  obtain ⟨-, -, -, jettyInfo, localSrc, remoteDst, chunks, -, -, -, hsplit, htwo, hp⟩ :=
    prepareSend_eq_some hsend
  have hchunks : (((P.seen n).node b.sender).reqs q).prep.chunks = chunks := by
    rw [hp]
    rfl
  obtain ⟨-, -, hcount, -⟩ := commonSplitChunks_eq_some hsplit (by omega)
  have hlen := ht.sendLen
  have htasks := (prepareSend_wellFormed hsend).tasks_length
  rw [hchunks] at htasks
  intro o ho
  obtain ⟨i, hi⟩ : ∃ i, o / 2097152 = i := ⟨_, rfl⟩
  have hmark := mark_of_ok hr hret (i := i) (by omega)
  -- a task of a send that has succeeded has posted its notify
  obtain ⟨arg, harg, hdone⟩ := accomplished_of_mark hr hmark
  have hnotify : ∃ queue wr, .post q .sendImm i queue wr urmaSuccess ∈
      taskEvents ⟨q, i⟩ ((P.seen n).node b.sender).trace := by
    rw [hp] at harg
    obtain ⟨-, rfl⟩ := sendRequest_arg htwo harg
    rcases hdone with ⟨queue, wr, -, -, hes⟩ | ⟨queue, wr, _, _, -, -, hes⟩
    · exact ⟨queue, wr, hes ▸ List.mem_cons_self⟩
    · exact ⟨queue, wr, hes ▸ List.mem_cons_self⟩
  obtain ⟨queue, wr, hpost⟩ := hnotify
  exact ht.in_place happart (fun _ _ hx => hx) hseen (List.mem_filter.mp hpost).1 ho
    (by rw [defaultChunkSize_toNat, hi])

/-- So they are when the sender's has. -/
theorem pair_sent : ∃ c, pairSystem.Reach PairGuard c ∧
    ((c.node false).reqs 0).owner = .returned (.waited .ok urmaSuccess) ∧
    ∀ o < 2097153, pairBuffers.Agree c.env.memory o := by
  obtain ⟨c, hr, hmade, hret, -⟩ := pair_reach
  exact ⟨c, hr, hret, sent_all (Fabric.provider_lawful pairPeer) pairBuffers_apart
    (hr.mono fun _ _ h => h.1) (pair_transfer (hr.mono fun _ _ h => h.2) hmade) hret⟩

end Promises

end OsTransport
