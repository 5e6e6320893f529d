/-
  Nodes that run the transport, and the provider between them.

  A cluster is a family of transports, one a node, and a URMA provider.  The provider is not part of
  the library, so it is a parameter: a `Provider` may keep any state, and do at any step whatever it
  likes as long as it keeps to `Provider.Lawful`, which is what the library relies on:

  * it copies the bytes of an accepted write one at a time, in any order, interleaved with
    everything else, and a write ends well only after its last byte (`copies`, `finishes`);
  * it delivers the immediate of an accepted notify at most once, to the node its target jetty
    names, and may overwrite bits 20 to 39 on the way (`delivers`);
  * it raises one local completion for each work request it has ended, well or not (`finishes`,
    `delivers`, `fails`);
  * a node is handed a completion only if the provider has raised it, and once (`completes`,
    `receives`).

  The application may store into any memory at any time (`stores`).

  What can be seen of a provider is a `Fabric`.  There is a provider that is nothing but its fabric
  (`Fabric.provider`) and takes every liberty the assumptions leave; whatever a lawful provider
  does, seen from outside it is a run of that one (`Provider.Lawful.reach_seen`).  The modules that
  follow argue about `Fabric.provider`, and their results are about every lawful provider.
-/
import OsTransport.Transfers
import OsTransport.Lib.Network

namespace OsTransport

open Network Transition

/-! ## The provider

What can be seen of it: packets under way, completions due, immediates arrived, and all memories. -/

/-- A work request the provider has accepted from request `req` of node `src` and not ended, with
    the bytes it has yet to copy. -/
structure Packet (ν : Type*) where
  src : ν
  dst : ν
  req : Nat
  opcode : UrmaOpcode
  chunk : Nat
  wr : UrmaJfsWr
  todo : List (BitVec 64 × BitVec 64)
  deriving DecidableEq

/-- What can be seen between the nodes: their memory, the work requests under way, the local
    completions that are due, and the immediates that have arrived. -/
structure Fabric (ν : Type*) where
  memory : ν → BitVec 64 → BitVec 8
  flight : List (Packet ν)
  due : List (ν × BitVec 64)
  arrived : List (ν × BitVec 64)

/-- The immediate `imm` is what `posted` may have become on the way.  The transit encoding gives the
    bits that may be lost no meaning (`OsTransport.UserData`). -/
def Survives (posted imm : BitVec 64) : Prop :=
  ∀ i < 64, ¬(20 ≤ i ∧ i < 40) → imm.getLsbD i = posted.getLsbD i

instance (posted imm : BitVec 64) : Decidable (Survives posted imm) :=
  inferInstanceAs (Decidable (∀ i < 64, ¬(20 ≤ i ∧ i < 40) → imm.getLsbD i = posted.getLsbD i))

/-- What the provider, or an application, does next. -/
inductive Carry (ν : Type*)
  /-- Copy byte `j` of what is left of work request `i`. -/
  | copy (i j : Nat)
  /-- Write `i` ends well. -/
  | finish (i : Nat)
  /-- Notify `i` ends well; `imm` arrives. -/
  | deliver (i : Nat) (imm : BitVec 64)
  /-- Work request `i` ends with an error completion. -/
  | fail (i : Nat)
  /-- The application of node `v` stores a byte. -/
  | store (v : ν) (addr : BitVec 64) (byte : BitVec 8)
  /-- The provider does something that does not show. -/
  | internal (k : Nat)

/-- A cluster as it is seen. -/
abbrev Cluster (ν : Type*) := Net ν Transport (Fabric ν)

namespace Fabric

variable {ν : Type*} [DecidableEq ν]

/-- `memory` with one byte of node `v` changed. -/
def poke (memory : ν → BitVec 64 → BitVec 8) (v : ν) (addr : BitVec 64) (byte : BitVec 8) :
    ν → BitVec 64 → BitVec 8 :=
  Function.update memory v (Function.update (memory v) addr byte)

theorem poke_self (memory : ν → BitVec 64 → BitVec 8) (v : ν) (addr : BitVec 64) (byte : BitVec 8) :
    poke memory v addr byte v addr = byte := by
  rw [poke, Function.update_self, Function.update_self]

theorem poke_ne {memory : ν → BitVec 64 → BitVec 8} {v w : ν} {addr x : BitVec 64} {byte : BitVec 8}
    (h : ¬(w = v ∧ x = addr)) : poke memory v addr byte w x = memory w x := by
  unfold poke
  by_cases hw : w = v
  · obtain rfl := hw
    rw [Function.update_self, Function.update_of_ne fun hx => h ⟨rfl, hx⟩]
  · rw [Function.update_of_ne hw]

/-- Byte `j` of what is left of work request `i` is copied. -/
def copied (f : Fabric ν) (i j : Nat) (p : Packet ν) (byte : BitVec 64 × BitVec 64) : Fabric ν :=
  { f with
    memory := poke f.memory p.dst byte.2 (f.memory p.src byte.1)
    flight := f.flight.set i { p with todo := p.todo.eraseIdx j } }

/-- Work request `i` ends: its local completion is due. -/
def complete (f : Fabric ν) (i : Nat) (p : Packet ν) : Fabric ν :=
  { f with flight := f.flight.eraseIdx i, due := f.due ++ [(p.src, p.wr.userCtx)] }

/-- One step of the provider or of an application, where the provider is its fabric. -/
def move (f : Fabric ν) : Carry ν → Option (Fabric ν)
  | .copy i j =>
    match f.flight[i]? with
    | some p => p.todo[j]?.map (f.copied i j p)
    | none => none
  | .finish i =>
    match f.flight[i]? with
    | some p => if p.todo = [] ∧ p.wr.announces = [] then some (f.complete i p) else none
    | none => none
  | .deliver i imm =>
    match f.flight[i]? with
    | some p =>
      if p.wr.announces.any fun posted => Survives posted imm then
        some { f.complete i p with arrived := f.arrived ++ [(p.dst, imm)] }
      else none
    | none => none
  | .fail i => f.flight[i]?.map (f.complete i)
  | .store v addr byte => some { f with memory := poke f.memory v addr byte }
  | .internal _ => some f

/-- The work request an accepted post of node `v` hands to the provider; `peer v` tells the node a
    target jetty of node `v` belongs to. -/
def accepts (peer : ν → Ptr → ν) (v : ν) : Event → Option (Packet ν)
  | .post q opcode k _ wr st =>
    if st = urmaSuccess then some ⟨v, peer v wr.tjetty, q, opcode, k, wr, wr.copies⟩ else none
  | _ => none

/-- The work requests the posts since `s` have handed over. -/
def taken (peer : ν → Ptr → ν) (v : ν) (s s' : Transport) : List (Packet ν) :=
  (s'.trace.drop s.trace.length).filterMap (accepts peer v)

/-- What the provider makes of a step of node `v`, where it is its fabric: it takes what was posted,
    and hands over a completion it has raised. -/
def note (peer : ν → Ptr → ν) (f : Fabric ν) (v : ν) (s : Transport) (a : Action) (s' : Transport) :
    Option (Fabric ν) :=
  match a with
  | .completion _ cr _ =>
    if cr.sR then
      if cr.opcode = urmaCrOpcSendWithImm ∧ (v, cr.immData) ∈ f.arrived then
        some { f with arrived := f.arrived.erase (v, cr.immData) }
      else none
    else if (v, cr.userCtx) ∈ f.due then some { f with due := f.due.erase (v, cr.userCtx) }
    else none
  | _ => some { f with flight := f.flight ++ taken peer v s s' }

end Fabric

/-! ## The provider as a parameter

What any provider may and may not do, and the systems it makes with the nodes. -/

/-- A URMA provider with the hardware under it.  It may keep any state `ε`.  What can be seen of the
    state is a `Fabric`; `move` is what it does by itself, `note` what it makes of a node's step. -/
structure Provider (ν ε : Type*) where
  /-- The node a target jetty of a node belongs to. -/
  peer : ν → Ptr → ν
  /-- What can be seen of a state. -/
  view : ε → Fabric ν
  /-- Before anything has happened. -/
  start : (ν → BitVec 64 → BitVec 8) → ε
  /-- What it makes of a step of a node; `none` if it does not hand over the completion. -/
  note : ε → ν → Transport → Action → Transport → Option ε
  /-- What it does by itself. -/
  move : ε → Carry ν → Option ε

section Provider

variable {ν ε : Type*} [DecidableEq ν]

/-- What is assumed of a provider.  Each field is about one step and says what may be seen to
    change; nothing is assumed of timing, order or progress. -/
structure Provider.Lawful (P : Provider ν ε) : Prop where
  /-- At first nothing is under way. -/
  starts : ∀ memory, P.view (P.start memory) = ⟨memory, [], [], []⟩
  /-- It copies only what work requests under way ask for, a byte of one at a time. -/
  copies : ∀ {e e' i j}, P.move e (.copy i j) = some e' →
    ∃ p byte, (P.view e).flight[i]? = some p ∧ p.todo[j]? = some byte ∧
      P.view e' = (P.view e).copied i j p byte
  /-- A write ends well only after its last byte; then its completion is due. -/
  finishes : ∀ {e e' i}, P.move e (.finish i) = some e' →
    ∃ p, (P.view e).flight[i]? = some p ∧ p.todo = [] ∧ p.wr.announces = [] ∧
      P.view e' = (P.view e).complete i p
  /-- A notify ends well as its immediate arrives, at its target and with all but bits 20 to 39
      intact. -/
  delivers : ∀ {e e' i imm}, P.move e (.deliver i imm) = some e' →
    ∃ p posted, (P.view e).flight[i]? = some p ∧ posted ∈ p.wr.announces ∧ Survives posted imm ∧
      P.view e' = { (P.view e).complete i p with arrived := (P.view e).arrived ++ [(p.dst, imm)] }
  /-- A work request it gives up gets a completion too. -/
  fails : ∀ {e e' i}, P.move e (.fail i) = some e' →
    ∃ p, (P.view e).flight[i]? = some p ∧ P.view e' = (P.view e).complete i p
  /-- A store changes one byte of the node's memory. -/
  stores : ∀ {e e' v addr byte}, P.move e (.store v addr byte) = some e' →
    P.view e' = { P.view e with memory := Fabric.poke (P.view e).memory v addr byte }
  hides : ∀ {e e' k}, P.move e (.internal k) = some e' → P.view e' = P.view e
  /-- What a node has posted, and the provider accepted, is under way. -/
  takes : ∀ {e e' v s a s'}, (∀ k cr status, a ≠ .completion k cr status) →
    P.note e v s a s' = some e' →
    P.view e' = { P.view e with
      flight := (P.view e).flight ++ Fabric.taken P.peer v s s' }
  /-- A local completion that is handed over was due, and is so no longer. -/
  completes : ∀ {e e' v s s' k cr status}, P.note e v s (.completion k cr status) s' = some e' →
    cr.sR = false → (v, cr.userCtx) ∈ (P.view e).due ∧
      P.view e' = { P.view e with due := (P.view e).due.erase (v, cr.userCtx) }
  /-- A receive completion that is handed over is that of an immediate that has arrived. -/
  receives : ∀ {e e' v s s' k cr status}, P.note e v s (.completion k cr status) s' = some e' →
    cr.sR = true → cr.opcode = urmaCrOpcSendWithImm ∧ (v, cr.immData) ∈ (P.view e).arrived ∧
      P.view e' = { P.view e with arrived := (P.view e).arrived.erase (v, cr.immData) }

/-- The nodes and their provider. -/
def Provider.wiring (P : Provider ν ε) : Wiring ν Transport ε Action (Carry ν) where
  step := Transport.step
  note := P.note
  move := P.move

/-- All runs of a cluster from the given memory, with `workers v` workers on node `v`. -/
def Provider.clusterSystem (P : Provider ν ε) (workers : ν → Nat) (capacity : ν → BitVec 32)
    (memory : ν → BitVec 64 → BitVec 8) : System (Net ν Transport ε) (Act ν Action (Carry ν)) :=
  P.wiring.system (fun v => Transport.start (workers v) (capacity v)) (P.start memory)

/-- What can be seen of a cluster. -/
def Provider.seen (P : Provider ν ε) (n : Net ν Transport ε) : Cluster ν := ⟨n.node, P.view n.env⟩

/-- The provider that is its fabric. -/
def Fabric.provider (peer : ν → Ptr → ν) : Provider ν (Fabric ν) where
  peer := peer
  view := id
  start := fun memory => ⟨memory, [], [], []⟩
  note := Fabric.note peer
  move := Fabric.move

/-- The nodes and the provider that is its fabric. -/
abbrev wiring (peer : ν → Ptr → ν) : Wiring ν Transport (Fabric ν) Action (Carry ν) :=
  (Fabric.provider peer).wiring

/-- All runs of a cluster with that provider. -/
abbrev clusterSystem (peer : ν → Ptr → ν) (workers : ν → Nat) (capacity : ν → BitVec 32)
    (memory : ν → BitVec 64 → BitVec 8) : System (Cluster ν) (Act ν Action (Carry ν)) :=
  (Fabric.provider peer).clusterSystem workers capacity memory

/-! ### Every lawful provider is seen as that one

A simulation, one step at a time. -/

namespace Provider.Lawful

variable {P : Provider ν ε}

/-- What a lawful provider does is seen as a move of its books. -/
theorem move_seen (hP : P.Lawful) {e e' : ε} {b : Carry ν} (h : P.move e b = some e') :
    (P.view e).move b = some (P.view e') := by
  cases b with
  | copy i j =>
    obtain ⟨p, byte, hp, hbyte, heq⟩ := hP.copies h
    simp only [Fabric.move, hp, hbyte, Option.map_some, heq]
  | finish i =>
    obtain ⟨p, hp, htodo, hann, heq⟩ := hP.finishes h
    simp only [Fabric.move, hp]
    rw [if_pos ⟨htodo, hann⟩, heq]
  | deliver i imm =>
    obtain ⟨p, posted, hp, hann, hsurvives, heq⟩ := hP.delivers h
    simp only [Fabric.move, hp]
    rw [if_pos (List.any_eq_true.mpr ⟨posted, hann, decide_eq_true hsurvives⟩), heq]
  | fail i =>
    obtain ⟨p, hp, heq⟩ := hP.fails h
    simp only [Fabric.move, hp, Option.map_some, heq]
  | store v addr byte => rw [Fabric.move, hP.stores h]
  | internal k => rw [Fabric.move, hP.hides h]

/-- What it takes note of is seen there too. -/
theorem note_seen (hP : P.Lawful) {e e' : ε} {v : ν} {s s' : Transport} {a : Action}
    (h : P.note e v s a s' = some e') :
    (P.view e).note P.peer v s a s' = some (P.view e') := by
  by_cases ha : ∃ k cr status, a = .completion k cr status
  · obtain ⟨k, cr, status, rfl⟩ := ha
    cases hside : cr.sR with
    | true =>
      obtain ⟨hopcode, harrived, heq⟩ := hP.receives h hside
      simp only [Fabric.note, hside, if_true]
      rw [if_pos ⟨hopcode, harrived⟩, heq]
    | false =>
      obtain ⟨hdue, heq⟩ := hP.completes h hside
      simp only [Fabric.note, hside, Bool.false_eq_true, if_false]
      rw [if_pos hdue, heq]
  · have hother := hP.takes (fun k cr status hx => ha ⟨k, cr, status, hx⟩) h
    cases a with
    | completion k cr status => exact absurd ⟨k, cr, status, rfl⟩ ha
    | _ => exact congrArg some hother.symm

/-- A run with a lawful provider is seen as a run with `Fabric.provider`. -/
theorem reach_seen (hP : P.Lawful) {workers : ν → Nat} {capacity : ν → BitVec 32}
    {memory : ν → BitVec 64 → BitVec 8} {ok : Cluster ν → Act ν Action (Carry ν) → Prop}
    {n : Net ν Transport ε}
    (h : (P.clusterSystem workers capacity memory).Reach (fun n x => ok (P.seen n) x) n) :
    (OsTransport.clusterSystem P.peer workers capacity memory).Reach ok (P.seen n) := by
  refine h.simulate P.seen ?_ ?_
  · rintro n rfl
    show Net.mk _ (P.view (P.start memory)) = _
    rw [hP.starts]
    rfl
  · intro n x n' _ _ hx hs
    refine .inr ⟨x, hx, ?_⟩
    cases x with
    | node v a =>
      obtain ⟨s, e, hstep, hnote, rfl⟩ := Wiring.net_node hs
      show ((P.wiring.step (n.node v) a).bind _) = _
      rw [hstep, Option.bind_some]
      show ((P.view n.env).note P.peer v (n.node v) a s).map _ = _
      rw [hP.note_seen hnote]
      rfl
    | env b =>
      obtain ⟨e, hmove, rfl⟩ := Wiring.net_env hs
      show ((P.view n.env).move b).map _ = _
      rw [hP.move_seen hmove]
      rfl

end Provider.Lawful

/-- The assumptions can be met. -/
theorem Fabric.provider_lawful (peer : ν → Ptr → ν) : (Fabric.provider peer).Lawful where
  starts := fun _ => rfl
  copies := by
    intro f f' i j h
    simp only [Fabric.provider, Fabric.move] at h
    split at h
    · rename_i p hp
      obtain ⟨byte, hbyte, rfl⟩ := Option.map_eq_some_iff.mp h
      exact ⟨p, byte, hp, hbyte, rfl⟩
    · cases h
  finishes := by
    intro f f' i h
    simp only [Fabric.provider, Fabric.move] at h
    split at h
    · rename_i p hp
      obtain ⟨⟨htodo, hann⟩, h⟩ := Option.ite_none_right_eq_some.mp h
      cases h
      exact ⟨p, hp, htodo, hann, rfl⟩
    · cases h
  delivers := by
    intro f f' i imm h
    simp only [Fabric.provider, Fabric.move] at h
    split at h
    · rename_i p hp
      obtain ⟨hany, h⟩ := Option.ite_none_right_eq_some.mp h
      cases h
      obtain ⟨posted, hann, hsurvives⟩ := List.any_eq_true.mp hany
      exact ⟨p, posted, hp, hann, of_decide_eq_true hsurvives, rfl⟩
    · cases h
  fails := by
    intro f f' i h
    obtain ⟨p, hp, rfl⟩ := Option.map_eq_some_iff.mp h
    exact ⟨p, hp, rfl⟩
  stores := by
    intro f f' v addr byte h
    cases h
    rfl
  hides := by
    intro f f' k h
    cases h
    rfl
  takes := by
    intro f f' v s a s' ha h
    cases a with
    | completion k cr status => exact absurd rfl (ha k cr status)
    | _ =>
      cases h
      rfl
  completes := by
    intro f f' v s s' k cr status h hside
    simp only [Fabric.provider, Fabric.note, hside, Bool.false_eq_true, if_false] at h
    obtain ⟨hdue, h⟩ := Option.ite_none_right_eq_some.mp h
    cases h
    exact ⟨hdue, rfl⟩
  receives := by
    intro f f' v s s' k cr status h hside
    simp only [Fabric.provider, Fabric.note, hside, if_true] at h
    obtain ⟨⟨hopcode, harrived⟩, h⟩ := Option.ite_none_right_eq_some.mp h
    cases h
    exact ⟨hopcode, harrived, rfl⟩

end Provider

/-! ## What passes between a node and the provider

A step of a node posts, handles a completion, or is none of the provider's business. -/

/-- The tags of the posts the provider has accepted. -/
def acceptedTags (trace : List Event) : List (BitVec 64) :=
  trace.filterMap fun
    | .post _ _ _ _ wr st => if st = urmaSuccess then some wr.userCtx else none
    | _ => none

/-- The tags of the local completions that have been handled. -/
def handledTags (trace : List Event) : List (BitVec 64) :=
  trace.filterMap fun
    | .completion cr => if cr.sR then none else some cr.userCtx
    | _ => none

/-- The provider has nothing to do with the event. -/
def Event.silent : Event → Bool
  | .post _ _ _ _ _ _ => false
  | .completion _ => false
  | _ => true

/-- What a step exchanges with the provider. -/
inductive Traffic (s : Transport) : Action → Transport → Prop
  | quiet {a s' events} (ha : ∀ k cr status, a ≠ .completion k cr status)
      (htrace : s'.trace = s.trace ++ events) (hev : ∀ e ∈ events, e.silent = true)
      (hout : s'.outstanding = s.outstanding) : Traffic s a s'
  | post {a s' q op k queue wr st} (ha : ∀ k cr status, a ≠ .completion k cr status)
      (hcause : Causes s a (.post q op k queue wr st))
      (htrace : s'.trace = s.trace ++ [.post q op k queue wr st])
      (hout : s'.outstanding =
        if st = urmaSuccess then s.outstanding ++ [wr.userCtx] else s.outstanding) : Traffic s a s'
  | handled {k cr status s' events} (htrace : s'.trace = s.trace ++ .completion cr :: events)
      (hev : ∀ e ∈ events, e.silent = true)
      (hout : s'.outstanding = if cr.sR then s.outstanding else s.outstanding.erase cr.userCtx) :
      Traffic s (.completion k cr status) s'

section Traffic

variable {s s' : Transport} {a : Action}

/-- A call of the API handles no completion. -/
theorem ApiCall.not_completion {q : Nat} {p : Option Prepared} {alloc : Alloc}
    (h : ApiCall a q p alloc) (k : Nat) (cr : UrmaCr) (status : UrmaStatus) :
    a ≠ .completion k cr status := by
  cases h <;> rintro ⟨⟩

/-- Every step of the transport is one of these, seen by the provider. -/
theorem Move.traffic (hm : Move s a s') : Traffic s a s' := by
  have hquiet : (∀ k cr status, a ≠ .completion k cr status) → s'.trace = s.trace →
      s'.outstanding = s.outstanding → Traffic s a s' := by
    intro ha htrace hout
    have hnil : s'.trace = s.trace ++ [] := by rw [htrace, List.append_nil]
    exact .quiet ha hnil (by simp) hout
  cases hm with
  | firstWrite hc hinfo hpost =>
    rcases post_wire hpost with ⟨-, -, rfl⟩ | ⟨queue, wr, hwr, htrace, hout⟩
    · exact hquiet (by rintro _ _ _ ⟨⟩) rfl rfl
    · exact .post (by rintro _ _ _ ⟨⟩) (.first hc hinfo hwr) htrace hout
  | notify hexec hbody harg hpost =>
    rcases post_wire hpost with ⟨-, -, rfl⟩ | ⟨queue, wr, hwr, htrace, hout⟩
    · exact hquiet (by rintro _ _ _ ⟨⟩) rfl rfl
    · exact .post (by rintro _ _ _ ⟨⟩) (.notify hexec hbody harg hwr) htrace hout
  | write hexec hbody harg hpost =>
    rcases post_wire hpost with ⟨-, -, rfl⟩ | ⟨queue, wr, hwr, htrace, hout⟩
    · exact hquiet (by rintro _ _ _ ⟨⟩) rfl rfl
    · exact .post (by rintro _ _ _ ⟨⟩) (.write hexec hbody harg hwr) htrace hout
  | prefill hc hinfo hinit | prefillFailed hc hinfo hinit =>
    refine .quiet (by rintro _ _ _ ⟨⟩) rfl (fun e he => ?_) rfl
    obtain ⟨status, rfl⟩ := prefill_recvPost hinit e he
    rfl
  | ignored hidle hcr hev hout | completion hidle hcr hpool hev hout =>
    obtain ⟨reposts, rfl, hre⟩ := hev
    refine .handled rfl (fun e he => ?_) hout
    obtain ⟨jetty, status, rfl⟩ := hre e he
    rfl
  | callback | mark =>
    refine .quiet (by rintro _ _ _ ⟨⟩) rfl (fun e he => ?_) rfl
    obtain rfl := List.mem_singleton.mp he
    rfl
  | refuse ha | submit ha => exact hquiet ha.not_completion rfl rfl
  | _ => exact hquiet (by rintro _ _ _ ⟨⟩) rfl rfl

end Traffic

/-! ## One step of a cluster

Both kinds of steps, as rules. -/

/-- A list around its element `i`. -/
theorem split_at {α : Type*} {l : List α} {i : Nat} {x : α} (h : l[i]? = some x) :
    ∃ before after, l = before ++ x :: after ∧ (∀ y, l.set i y = before ++ y :: after) ∧
      l.eraseIdx i = before ++ after := by
  obtain ⟨hi, rfl⟩ := List.getElem?_eq_some_iff.mp h
  refine ⟨l.take i, l.drop (i + 1), ?_, fun y => ?_, List.eraseIdx_eq_take_drop_succ l i⟩
  · rw [← List.drop_eq_getElem_cons hi, List.take_append_drop]
  · rw [List.set_eq_take_append_cons_drop, if_pos hi]

namespace Fabric

variable {ν : Type*} [DecidableEq ν]

/-- What a step of the provider or an application does. -/
inductive Carried (f : Fabric ν) : Carry ν → Fabric ν → Prop
  | copy {i j p before after byte left right} (hp : f.flight[i]? = some p)
      (hflight : f.flight = before ++ p :: after) (hbyte : p.todo[j]? = some byte)
      (htodo : p.todo = left ++ byte :: right) :
      Carried f (.copy i j) { f with
        memory := poke f.memory p.dst byte.2 (f.memory p.src byte.1)
        flight := before ++ { p with todo := left ++ right } :: after }
  | finish {i p before after} (hflight : f.flight = before ++ p :: after) (htodo : p.todo = [])
      (hann : p.wr.announces = []) :
      Carried f (.finish i) { f with
        flight := before ++ after, due := f.due ++ [(p.src, p.wr.userCtx)] }
  | deliver {i imm posted p before after} (hflight : f.flight = before ++ p :: after)
      (hann : posted ∈ p.wr.announces) (hsurvives : Survives posted imm) :
      Carried f (.deliver i imm) { f with
        flight := before ++ after, due := f.due ++ [(p.src, p.wr.userCtx)]
        arrived := f.arrived ++ [(p.dst, imm)] }
  | fail {i p before after} (hp : f.flight[i]? = some p)
      (hflight : f.flight = before ++ p :: after) :
      Carried f (.fail i) { f with
        flight := before ++ after, due := f.due ++ [(p.src, p.wr.userCtx)] }
  | store {v addr byte} :
      Carried f (.store v addr byte) { f with memory := poke f.memory v addr byte }
  | internal {k} : Carried f (.internal k) f

/-- What a provider does by itself is one of these. -/
theorem carried {f f' : Fabric ν} {b : Carry ν} (h : f.move b = some f') : f.Carried b f' := by
  cases b with
  | copy i j =>
    simp only [move] at h
    split at h
    · rename_i p hp
      obtain ⟨byte, hbyte, rfl⟩ := Option.map_eq_some_iff.mp h
      obtain ⟨before, after, hflight, hset, -⟩ := split_at hp
      obtain ⟨left, right, htodo, -, herase⟩ := split_at hbyte
      rw [copied, hset, herase]
      exact .copy hp hflight hbyte htodo
    · cases h
  | finish i =>
    simp only [move] at h
    split at h
    · rename_i p hp
      obtain ⟨⟨htodo, hann⟩, h⟩ := Option.ite_none_right_eq_some.mp h
      cases h
      obtain ⟨before, after, hflight, -, herase⟩ := split_at hp
      rw [complete, herase]
      exact .finish hflight htodo hann
    · cases h
  | deliver i imm =>
    simp only [move] at h
    split at h
    · rename_i p hp
      obtain ⟨hany, h⟩ := Option.ite_none_right_eq_some.mp h
      cases h
      obtain ⟨posted, hann, hsurvives⟩ := List.any_eq_true.mp hany
      obtain ⟨before, after, hflight, -, herase⟩ := split_at hp
      rw [complete, herase]
      exact .deliver hflight hann (of_decide_eq_true hsurvives)
    · cases h
  | fail i =>
    obtain ⟨p, hp, rfl⟩ := Option.map_eq_some_iff.mp h
    obtain ⟨before, after, hflight, -, herase⟩ := split_at hp
    rw [complete, herase]
    exact .fail hp hflight
  | store v addr byte =>
    cases h
    exact .store
  | internal k =>
    cases h
    exact .internal

/-- What the provider makes of a step of node `v`. -/
inductive Noted (peer : ν → Ptr → ν) (f : Fabric ν) (v : ν) (s : Transport) :
    Action → Transport → Fabric ν → Prop
  | quiet {a s' events} (ha : ∀ k cr status, a ≠ .completion k cr status)
      (htrace : s'.trace = s.trace ++ events) (hev : ∀ e ∈ events, e.silent = true)
      (hout : s'.outstanding = s.outstanding) : Noted peer f v s a s' f
  | post {a s' q op k queue wr st} (hcause : Causes s a (.post q op k queue wr st))
      (htrace : s'.trace = s.trace ++ [.post q op k queue wr st])
      (hout : s'.outstanding =
        if st = urmaSuccess then s.outstanding ++ [wr.userCtx] else s.outstanding) :
      Noted peer f v s a s' { f with
        flight := f.flight ++ (accepts peer v (.post q op k queue wr st)).toList }
  | sent {k cr status s' events} (hside : cr.sR = false) (hdue : (v, cr.userCtx) ∈ f.due)
      (htrace : s'.trace = s.trace ++ .completion cr :: events)
      (hev : ∀ e ∈ events, e.silent = true)
      (hout : s'.outstanding = s.outstanding.erase cr.userCtx) :
      Noted peer f v s (.completion k cr status) s' { f with
        due := f.due.erase (v, cr.userCtx) }
  | received {k cr status s' events} (hside : cr.sR = true)
      (hopcode : cr.opcode = urmaCrOpcSendWithImm) (harrived : (v, cr.immData) ∈ f.arrived)
      (htrace : s'.trace = s.trace ++ .completion cr :: events)
      (hev : ∀ e ∈ events, e.silent = true) (hout : s'.outstanding = s.outstanding) :
      Noted peer f v s (.completion k cr status) s' { f with
        arrived := f.arrived.erase (v, cr.immData) }

omit [DecidableEq ν] in
/-- An event that is no post is not accepted. -/
theorem accepts_silent {peer : ν → Ptr → ν} {v : ν} {e : Event} (h : e.silent = true) :
    accepts peer v e = none := by
  cases e <;> first | rfl | cases h

/-- What it takes note of is one of these. -/
theorem noted {peer : ν → Ptr → ν} {f f' : Fabric ν} {v : ν} {s s' : Transport} {a : Action}
    (hs : s.step a = some s') (h : f.note peer v s a s' = some f') : Noted peer f v s a s' f' := by
  have hother : (∀ k cr status, a ≠ .completion k cr status) → f' = { f with
      flight := f.flight ++ taken peer v s s' } := by
    intro ha
    cases a with
    | completion k cr status => exact absurd rfl (ha k cr status)
    | _ =>
      cases h
      rfl
  cases (Transport.move_of_step hs).traffic with
  | @quiet _ _ events ha htrace hev hout =>
    have hnone : events.filterMap (accepts peer v) = [] :=
      List.filterMap_eq_nil_iff.mpr fun e he => accepts_silent (hev e he)
    rw [hother ha, taken, htrace, List.drop_left, hnone, List.append_nil]
    exact .quiet ha htrace hev hout
  | post ha hcause htrace hout =>
    have hone : ∀ e, [e].filterMap (accepts peer v) = (accepts peer v e).toList := by
      intro e
      cases he : accepts peer v e <;> simp [he]
    rw [hother ha, taken, htrace, List.drop_left, hone]
    exact .post hcause htrace hout
  | @handled k cr status _ events htrace hev hout =>
    simp only [note] at h
    split at h
    · rename_i hside
      obtain ⟨⟨hopcode, harrived⟩, h⟩ := Option.ite_none_right_eq_some.mp h
      cases h
      rw [if_pos hside] at hout
      exact .received hside hopcode harrived htrace hev hout
    · rename_i hside
      obtain ⟨hdue, h⟩ := Option.ite_none_right_eq_some.mp h
      cases h
      rw [if_neg hside] at hout
      exact .sent (Bool.eq_false_iff.mpr hside) hdue htrace hev hout

/-- The history of the node goes on. -/
theorem Noted.trace_append {peer : ν → Ptr → ν} {f f' : Fabric ν} {v : ν} {s s' : Transport}
    {a : Action} (h : Noted peer f v s a s' f') : ∃ events, s'.trace = s.trace ++ events := by
  cases h with
  | quiet _ htrace | post _ htrace | sent _ _ htrace | received _ _ _ htrace => exact ⟨_, htrace⟩

end Fabric

end OsTransport
