/-
  What the provider holds, and where it has it from.

  Four facts relate the nodes of a cluster to the provider between them:

  * what is under way was posted by its node, and what is left to copy is part of it (`Backed`);
  * a tag a node has posted is under way, due, or handled, as often as it was posted (`Balance`);
  * an immediate that arrives was posted towards the node it arrives at (`Sent`);
  * a completion a node handles was due, so each node has made a run in which local completions
    are of posted work requests only (`reach_transport`).

  Each is an invariant of the cluster with one lemma for a step of the provider and one for a step of
  a node: `Backed.carried`, `Balance.carried` for the provider, `Backed.own`, `Backed.other` and their
  like for the node that moves and for the others.  What a node does to the provider is known from
  `Noted` alone, so nothing here depends on what a request is.

  `reach_transport` is what these are for: a cluster's run, seen at one node, is a run of
  `Transport` in which completions come only for what was posted, so every theorem about one process
  holds of a node whatever the network does.  The last section lets a provider copy until nothing is
  left to copy; runs on concrete inputs are shortened by it.
-/
import OsTransport.Fabric

namespace OsTransport

open Network Transition

variable {ν : Type*} {peer : ν → Ptr → ν}

/-! ## The histories

Tags accepted and tags handled, read off a trace. -/

section Tags

variable {trace events : List Event}

theorem acceptedTags_append (t t' : List Event) :
    acceptedTags (t ++ t') = acceptedTags t ++ acceptedTags t' := List.filterMap_append ..

theorem handledTags_append (t t' : List Event) :
    handledTags (t ++ t') = handledTags t ++ handledTags t' := List.filterMap_append ..

/-- What is no post accepts nothing. -/
theorem acceptedTags_silent (h : ∀ e ∈ events, e.silent = true) : acceptedTags events = [] := by
  refine List.filterMap_eq_nil_iff.mpr fun e he => ?_
  have hsilent := h e he
  cases e <;> first | rfl | cases hsilent

/-- What is no completion handles nothing. -/
theorem handledTags_silent (h : ∀ e ∈ events, e.silent = true) : handledTags events = [] := by
  refine List.filterMap_eq_nil_iff.mpr fun e he => ?_
  have hsilent := h e he
  cases e <;> first | rfl | cases hsilent

/-- Events the provider has nothing to do with leave both lists. -/
theorem tags_silent (h : ∀ e ∈ events, e.silent = true) :
    acceptedTags (trace ++ events) = acceptedTags trace ∧
      handledTags (trace ++ events) = handledTags trace := by
  rw [acceptedTags_append, handledTags_append, acceptedTags_silent h, handledTags_silent h,
    List.append_nil, List.append_nil]
  exact ⟨rfl, rfl⟩

/-- An accepted post adds its tag to those accepted, a refused one nothing. -/
theorem tags_post (q : Nat) (op : UrmaOpcode) (k : Nat) (queue : SendQueue) (wr : UrmaJfsWr)
    (st : UrmaStatus) :
    acceptedTags (trace ++ [.post q op k queue wr st]) =
        acceptedTags trace ++ (if st = urmaSuccess then [wr.userCtx] else []) ∧
      handledTags (trace ++ [.post q op k queue wr st]) = handledTags trace := by
  rw [acceptedTags_append, handledTags_append]
  by_cases hst : st = urmaSuccess <;> simp [acceptedTags, handledTags, hst]

/-- A local completion adds its tag to those handled, one of a received message nothing. -/
theorem tags_completion (cr : UrmaCr) (h : ∀ e ∈ events, e.silent = true) :
    acceptedTags (trace ++ .completion cr :: events) = acceptedTags trace ∧
      handledTags (trace ++ .completion cr :: events) =
        handledTags trace ++ (if cr.sR then [] else [cr.userCtx]) := by
  rw [List.append_cons, (tags_silent h).1, (tags_silent h).2, acceptedTags_append, handledTags_append]
  by_cases hside : cr.sR = true <;> simp [acceptedTags, handledTags, hside]

theorem mem_handledTags {cr : UrmaCr} (h : .completion cr ∈ trace) (hside : cr.sR = false) :
    cr.userCtx ∈ handledTags trace :=
  List.mem_filterMap.mpr ⟨_, h, by simp [hside]⟩

theorem mem_acceptedTags {x : BitVec 64} :
    x ∈ acceptedTags trace ↔
      ∃ q op k queue wr, .post q op k queue wr urmaSuccess ∈ trace ∧ wr.userCtx = x := by
  refine ⟨fun h => ?_, ?_⟩
  · obtain ⟨e, he, hx⟩ := List.mem_filterMap.mp h
    cases e with
    | post q op k queue wr st =>
      obtain ⟨rfl, hx⟩ := Option.ite_none_right_eq_some.mp hx
      exact ⟨q, op, k, queue, wr, he, Option.some.inj hx⟩
    | _ => cases hx
  · rintro ⟨q, op, k, queue, wr, hpost, rfl⟩
    exact List.mem_filterMap.mpr ⟨_, hpost, if_pos rfl⟩

end Tags

/-! ## The provider's books

Two facts about the provider and one node, of which the other nodes are no part. -/

/-- What is under way from node `v` was posted there.  With it, what is still to be copied for a
    write is part of what the write was posted with. -/
def Backed (peer : ν → Ptr → ν) (v : ν) (s : Transport) (f : Fabric ν) : Prop :=
  ∀ p ∈ f.flight, p.src = v →
    (∃ queue, .post p.req p.opcode p.chunk queue p.wr urmaSuccess ∈ s.trace) ∧
      p.dst = peer v p.wr.tjetty ∧ ∀ x ∈ p.todo, x ∈ p.wr.copies

section Books

variable [DecidableEq ν]

/-- The tags under way from node `v`. -/
def flightTags (v : ν) (flight : List (Packet ν)) : List (BitVec 64) :=
  (flight.filter fun p => decide (p.src = v)).map fun p => p.wr.userCtx

/-- What node `v` waits for is under way or due, and what it has posted it waits for or has seen
    completed. -/
structure Balance (v : ν) (s : Transport) (f : Fabric ν) : Prop where
  owed : ∀ x, s.outstanding.count x = (flightTags v f.flight).count x + f.due.count (v, x)
  posted : ∀ x, (acceptedTags s.trace).count x =
    s.outstanding.count x + (handledTags s.trace).count x

theorem flightTags_append (v : ν) (l l' : List (Packet ν)) :
    flightTags v (l ++ l') = flightTags v l ++ flightTags v l' := by
  rw [flightTags, List.filter_append, List.map_append]
  rfl

/-- A work request counts for its own node. -/
theorem flightTags_cons (v : ν) (p : Packet ν) (l : List (Packet ν)) :
    flightTags v (p :: l) = (if p.src = v then [p.wr.userCtx] else []) ++ flightTags v l := by
  unfold flightTags
  by_cases hp : p.src = v
  · rw [if_pos hp, List.filter_cons_of_pos (by simpa using hp)]
    rfl
  · rw [if_neg hp, List.filter_cons_of_neg (by simpa using hp)]
    rfl

variable {s s' : Transport} {f f' : Fabric ν} {v w : ν} {a : Action} {b : Carry ν}

/-! ### Steps of the provider

What it copies, finishes and delivers changes hands, and nothing is made up. -/

/-- What the provider does by itself puts nothing new under way. -/
theorem Backed.carried (h : Backed peer v s f) (hb : f.Carried b f') : Backed peer v s f' := by
  cases hb with
  | @copy i j p before after byte left right hp hflight hbyte htodo =>
    intro p' hp' hsrc
    rcases List.mem_append.mp hp' with hmem | hmem
    · exact h p' (hflight ▸ List.mem_append_left _ hmem) hsrc
    rcases List.mem_cons.mp hmem with rfl | hmem
    · obtain ⟨hpost, hdst, htodo'⟩ := h p (hflight ▸ by simp) hsrc
      refine ⟨hpost, hdst, fun x hx => htodo' x ?_⟩
      rw [htodo]
      rcases List.mem_append.mp hx with hx | hx
      · exact List.mem_append_left _ hx
      · exact List.mem_append_right _ (List.mem_cons_of_mem _ hx)
    · exact h p' (hflight ▸ List.mem_append_right _ (List.mem_cons_of_mem _ hmem)) hsrc
  | finish hflight | deliver hflight | fail _ hflight =>
    intro p' hp' hsrc
    refine h p' ?_ hsrc
    rw [hflight]
    rcases List.mem_append.mp hp' with hmem | hmem
    · exact List.mem_append_left _ hmem
    · exact List.mem_append_right _ (List.mem_cons_of_mem _ hmem)
  | store | internal => exact h

/-- A work request that ends becomes due. -/
theorem owed_ended (before after : List (Packet ν)) (p : Packet ν) (due : List (ν × BitVec 64))
    (x : BitVec 64) :
    (flightTags v (before ++ after)).count x + (due ++ [(p.src, p.wr.userCtx)]).count (v, x) =
      (flightTags v (before ++ p :: after)).count x + due.count (v, x) := by
  rw [flightTags_append, flightTags_append, flightTags_cons, List.count_append, List.count_append,
    List.count_append, List.count_append]
  by_cases hp : p.src = v
  · rw [if_pos hp, hp, List.count_singleton, List.count_singleton]
    have heq : ((v, p.wr.userCtx) == (v, x)) = (p.wr.userCtx == x) := by
      rw [Bool.eq_iff_iff, beq_iff_eq, beq_iff_eq, Prod.mk.injEq]
      exact ⟨And.right, fun h => ⟨rfl, h⟩⟩
    rw [heq]
    omega
  · have hne : ((p.src, p.wr.userCtx) == (v, x)) = false :=
      beq_eq_false_iff_ne.mpr fun h => hp (congrArg Prod.fst h)
    rw [if_neg hp, List.count_singleton, hne, List.count_nil]
    simp only [Bool.false_eq_true, if_false]
    omega

/-- It keeps the balance of the tags: none is lost, none made up. -/
theorem Balance.carried (h : Balance v s f) (hb : f.Carried b f') : Balance v s f' := by
  refine ⟨fun x => ?_, h.posted⟩
  rw [h.owed x]
  cases hb with
  | @copy i j p before after byte left right hp hflight =>
    rw [hflight, flightTags_append, flightTags_append, flightTags_cons, flightTags_cons]
  | @finish i p before after hflight | @deliver i imm posted p before after hflight
  | @fail i p before after _ hflight => rw [hflight, owed_ended]
  | store | internal => rfl

/-! ### Steps of a node

A post goes from the node to the provider, a completion back. -/

/-- What a step of the node puts under way, it has posted. -/
theorem Backed.own (h : Backed peer v s f) (hn : f.Noted peer v s a s' f') : Backed peer v s' f' := by
  have hkeep : ∀ p ∈ f.flight, p.src = v →
      (∃ queue, .post p.req p.opcode p.chunk queue p.wr urmaSuccess ∈ s'.trace) ∧
        p.dst = peer v p.wr.tjetty ∧ ∀ x ∈ p.todo, x ∈ p.wr.copies := by
    intro p hp hsrc
    obtain ⟨⟨queue, hpost⟩, hrest⟩ := h p hp hsrc
    obtain ⟨events, htrace⟩ := hn.trace_append
    exact ⟨⟨queue, htrace ▸ List.mem_append_left _ hpost⟩, hrest⟩
  cases hn with
  | quiet | sent | received => exact hkeep
  | @post _ _ q op k queue wr st _ htrace =>
    intro p hp hsrc
    rcases List.mem_append.mp hp with hmem | hmem
    · exact hkeep p hmem hsrc
    · obtain ⟨rfl, heq⟩ := Option.ite_none_right_eq_some.mp (Option.mem_toList.mp hmem)
      cases heq
      exact ⟨⟨queue, htrace ▸ List.mem_append_right _ (List.mem_singleton_self _)⟩, rfl, fun x hx => hx⟩

/-- What another node does has no part in it. -/
theorem Backed.other {s₀ s₁ : Transport} (h : Backed peer v s f) (hn : f.Noted peer w s₀ a s₁ f')
    (hw : w ≠ v) : Backed peer v s f' := by
  cases hn with
  | quiet | sent | received => exact h
  | @post _ _ q op k queue wr st =>
    intro p hp hsrc
    rcases List.mem_append.mp hp with hmem | hmem
    · exact h p hmem hsrc
    · obtain ⟨rfl, heq⟩ := Option.ite_none_right_eq_some.mp (Option.mem_toList.mp hmem)
      cases heq
      exact absurd hsrc hw

/-- What a post of node `w` adds to the tags under way from `v`. -/
theorem flightTags_accepts (q : Nat) (op : UrmaOpcode) (k : Nat) (queue : SendQueue)
    (wr : UrmaJfsWr) (st : UrmaStatus) :
    flightTags v (Fabric.accepts peer w (.post q op k queue wr st)).toList =
      if w = v ∧ st = urmaSuccess then [wr.userCtx] else [] := by
  by_cases hst : st = urmaSuccess
  · by_cases hw : w = v <;> simp [Fabric.accepts, flightTags, hst, hw]
  · simp [Fabric.accepts, flightTags, hst]

/-- A due completion of node `w` is handled. -/
theorem count_due_erase {due : List (ν × BitVec 64)} {x y : BitVec 64} (h : (w, y) ∈ due) :
    (due.erase (w, y)).count (v, x) + (if w = v ∧ y = x then 1 else 0) = due.count (v, x) := by
  rw [List.count_erase]
  by_cases hx : w = v ∧ y = x
  · obtain ⟨rfl, rfl⟩ := hx
    have hpos := List.count_pos_iff.mpr h
    simp only [and_self, if_true, beq_self_eq_true]
    omega
  · rw [if_neg hx, if_neg, Nat.add_zero, Nat.sub_zero]
    rw [beq_iff_eq, Prod.mk.injEq]
    exact hx

/-- A step of the node keeps its balance. -/
theorem Balance.own (h : Balance v s f) (hn : f.Noted peer v s a s' f') : Balance v s' f' := by
  cases hn with
  | quiet _ htrace hev hout =>
    refine ⟨fun x => hout ▸ h.owed x, fun x => ?_⟩
    rw [htrace, (tags_silent hev).1, (tags_silent hev).2, hout]
    exact h.posted x
  | @post _ _ q op k queue wr st _ htrace hout =>
    refine ⟨fun x => ?_, fun x => ?_⟩
    · have howed := h.owed x
      show _ = _ + f.due.count (v, x)
      rw [hout, flightTags_append, flightTags_accepts, List.count_append]
      by_cases hst : st = urmaSuccess
      · rw [if_pos hst, if_pos ⟨rfl, hst⟩, List.count_append]
        omega
      · rw [if_neg hst, if_neg fun hx => hst hx.2, List.count_nil]
        omega
    · have hposted := h.posted x
      rw [htrace, (tags_post q op k queue wr st).1, (tags_post q op k queue wr st).2, hout,
        List.count_append]
      by_cases hst : st = urmaSuccess
      · rw [if_pos hst, if_pos hst, List.count_append]
        omega
      · rw [if_neg hst, if_neg hst, List.count_nil]
        omega
  | @sent k cr status _ events hside hdue htrace hev hout =>
    -- it was due, so the node was waiting for it
    have hcount := fun x => count_due_erase (v := v) (x := x) hdue
    have herase : ∀ x, (s.outstanding.erase cr.userCtx).count x + (if cr.userCtx = x then 1 else 0) =
        s.outstanding.count x := by
      intro x
      have howed := h.owed x
      have hx := hcount x
      simp only [true_and] at hx
      rw [List.count_erase]
      by_cases htag : cr.userCtx = x
      · rw [if_pos htag] at hx ⊢
        rw [if_pos (beq_iff_eq.mpr htag)]
        omega
      · rw [if_neg htag, if_neg (by simpa using htag), Nat.sub_zero, Nat.add_zero]
    refine ⟨fun x => ?_, fun x => ?_⟩
    · have howed := h.owed x
      have hx := hcount x
      have hout' := herase x
      simp only [true_and] at hx
      show _ = (flightTags v f.flight).count x + (f.due.erase (v, cr.userCtx)).count (v, x)
      rw [hout]
      omega
    · have hposted := h.posted x
      have hout' := herase x
      rw [htrace, (tags_completion cr hev).1, (tags_completion cr hev).2, hout, hside,
        if_neg Bool.false_ne_true, List.count_append, List.count_singleton]
      simp only [beq_iff_eq]
      omega
  | received hside _ _ htrace hev hout =>
    refine ⟨fun x => hout ▸ h.owed x, fun x => ?_⟩
    rw [htrace, (tags_completion _ hev).1, (tags_completion _ hev).2, if_pos hside, List.append_nil,
      hout]
    exact h.posted x

/-- A step of another node leaves it alone. -/
theorem Balance.other {s₀ s₁ : Transport} (h : Balance v s f) (hn : f.Noted peer w s₀ a s₁ f')
    (hw : w ≠ v) : Balance v s f' := by
  refine ⟨fun x => ?_, h.posted⟩
  have howed := h.owed x
  cases hn with
  | quiet | received => exact howed
  | post =>
    rw [flightTags_append, flightTags_accepts, if_neg fun hx => hw hx.1, List.append_nil]
    exact howed
  | sent hside hdue =>
    have hx := count_due_erase (v := v) (x := x) hdue
    rw [if_neg fun hx => hw hx.1, Nat.add_zero] at hx
    rw [hx]
    exact howed

end Books

/-! ## Runs

Both facts along a run, and what follows for immediates. -/

section Runs

variable [DecidableEq ν] {workers : ν → Nat} {capacity : ν → BitVec 32}
  {memory : ν → BitVec 64 → BitVec 8} {ok : Cluster ν → Act ν Action (Carry ν) → Prop}
  {c c' : Cluster ν}

/-- In every run what is under way from a node was posted there. -/
theorem backed_reach (h : (clusterSystem peer workers capacity memory).Reach ok c) (v : ν) :
    Backed peer v (c.node v) c.env := by
  refine Wiring.local_invariant v ?_ ?_ ?_ ?_ h
  · intro p hp
    cases hp
  · exact fun n a s f _ hI _ hs hn => hI.own (Fabric.noted hs hn)
  · exact fun n w a s f _ hI hw _ hs hn => hI.other (Fabric.noted hs hn) hw
  · exact fun n b f _ hI _ hm => hI.carried (Fabric.carried hm)

/-- In every run the tags of a node balance: accepted, under way, due and handled. -/
theorem balance_reach (h : (clusterSystem peer workers capacity memory).Reach ok c) (v : ν) :
    Balance v (c.node v) c.env := by
  refine Wiring.local_invariant v ?_ ?_ ?_ ?_ h
  · exact ⟨fun _ => rfl, fun _ => rfl⟩
  · exact fun n a s f _ hI _ hs hn => hI.own (Fabric.noted hs hn)
  · exact fun n w a s f _ hI hw _ hs hn => hI.other (Fabric.noted hs hn) hw
  · exact fun n b f _ hI _ hm => hI.carried (Fabric.carried hm)

/-- The history of every node goes on. -/
theorem trace_step {x : Act ν Action (Carry ν)} (h : (wiring peer).net c x = some c') (v : ν) :
    ∃ events, (c'.node v).trace = (c.node v).trace ++ events := by
  cases x with
  | node w a =>
    obtain ⟨s, f, hs, hn, rfl⟩ := Wiring.net_node h
    by_cases hw : v = w
    · obtain rfl := hw
      simp only [Function.update_self]
      exact (Fabric.noted hs hn).trace_append
    · simp only [Function.update_of_ne hw]
      exact ⟨[], (List.append_nil _).symm⟩
  | env b =>
    obtain ⟨f, -, rfl⟩ := Wiring.net_env h
    exact ⟨[], (List.append_nil _).symm⟩

theorem mem_trace_step {x : Act ν Action (Carry ν)} (h : (wiring peer).net c x = some c') {v : ν}
    {e : Event} (he : e ∈ (c.node v).trace) : e ∈ (c'.node v).trace := by
  obtain ⟨events, htrace⟩ := trace_step h v
  rw [htrace]
  exact List.mem_append_left _ he

/-- Some node has posted the immediate towards node `v`.  Up to the bits that the network may
    overwrite on the way. -/
def Sent (peer : ν → Ptr → ν) (c : Cluster ν) (v : ν) (imm : BitVec 64) : Prop :=
  ∃ w q op k queue wr, .post q op k queue wr urmaSuccess ∈ (c.node w).trace ∧
    peer w wr.tjetty = v ∧ ∃ posted ∈ wr.announces, Survives posted imm

/-- An immediate that has been posted stays posted. -/
theorem Sent.step {x : Act ν Action (Carry ν)} (hs : (wiring peer).net c x = some c') {v : ν}
    {imm : BitVec 64} (h : Sent peer c v imm) : Sent peer c' v imm := by
  obtain ⟨w, q, op, k, queue, wr, hpost, hrest⟩ := h
  exact ⟨w, q, op, k, queue, wr, mem_trace_step hs hpost, hrest⟩

/-- An immediate has arrived at node `v`. -/
def Arrived (c : Cluster ν) (v : ν) (imm : BitVec 64) : Prop :=
  (v, imm) ∈ c.env.arrived ∨
    ∃ cr, .completion cr ∈ (c.node v).trace ∧ cr.sR = true ∧ cr.immData = imm

/-- What arrives at a step had arrived before, or is delivered by it. -/
theorem arrived_step {x : Act ν Action (Carry ν)} (hs : (wiring peer).net c x = some c') {v : ν}
    {imm : BitVec 64} (h : Arrived c' v imm) :
    Arrived c v imm ∨ ∃ p ∈ c.env.flight, p.dst = v ∧ ∃ posted ∈ p.wr.announces, Survives posted imm := by
  cases x with
  | node w a =>
    obtain ⟨s, f, hstep, hnote, rfl⟩ := Wiring.net_node hs
    have hn := Fabric.noted hstep hnote
    refine .inl ?_
    have hother : (∀ cr, cr.sR = true → .completion cr ∈ s.trace → .completion cr ∈ (c.node w).trace) →
        ∀ cr, cr.sR = true → .completion cr ∈ (Function.update c.node w s v).trace →
          .completion cr ∈ (c.node v).trace := by
      intro hw cr hside hcr
      by_cases hv : v = w
      · subst hv
        rw [Function.update_self] at hcr
        exact hw cr hside hcr
      · rwa [Function.update_of_ne hv] at hcr
    rcases h with harr | ⟨cr, hcr, hside, rfl⟩
    · cases hn with
      | quiet | post | sent => exact .inl harr
      | received => exact .inl (List.mem_of_mem_erase harr)
    · cases hn with
      | quiet _ htrace hev =>
        refine .inr ⟨cr, hother (fun cr hside hcr => ?_) cr hside hcr, hside, rfl⟩
        rw [htrace] at hcr
        exact (List.mem_append.mp hcr).resolve_right fun hcr => by cases hev _ hcr
      | post _ htrace =>
        refine .inr ⟨cr, hother (fun cr hside hcr => ?_) cr hside hcr, hside, rfl⟩
        rw [htrace] at hcr
        exact (List.mem_append.mp hcr).resolve_right fun hcr => by cases List.mem_singleton.mp hcr
      | sent hlocal _ htrace hev =>
        refine .inr ⟨cr, hother (fun cr hside hcr => ?_) cr hside hcr, hside, rfl⟩
        rw [htrace] at hcr
        refine (List.mem_append.mp hcr).resolve_right fun hcr => ?_
        rcases List.mem_cons.mp hcr with heq | hcr
        · cases heq
          rw [hlocal] at hside
          cases hside
        · cases hev _ hcr
      | received _ _ harr htrace hev =>
        -- the completion this node handles is one that had arrived
        by_cases hv : v = w
        · subst hv
          simp only [Function.update_self] at hcr
          rw [htrace] at hcr
          rcases List.mem_append.mp hcr with hcr | hcr
          · exact .inr ⟨cr, hcr, hside, rfl⟩
          rcases List.mem_cons.mp hcr with heq | hcr
          · cases heq
            exact .inl harr
          · cases hev _ hcr
        · simp only [Function.update_of_ne hv] at hcr
          exact .inr ⟨cr, hcr, hside, rfl⟩
  | env b =>
    obtain ⟨f, hmove, rfl⟩ := Wiring.net_env hs
    cases Fabric.carried hmove with
    | copy | finish | fail | store | internal => exact .inl h
    | @deliver i imm' posted p before after hflight hann hsurvives =>
      rcases h with harr | hold
      · rcases List.mem_append.mp harr with harr | harr
        · exact .inl (.inl harr)
        · cases List.mem_singleton.mp harr
          exact .inr ⟨p, hflight ▸ by simp, rfl, posted, hann, hsurvives⟩
      · exact .inl (.inr hold)

/-- What arrives was sent. -/
theorem sent_reach (h : (clusterSystem peer workers capacity memory).Reach ok c) :
    ∀ v imm, Arrived c v imm → Sent peer c v imm := by
  refine System.Reach.invariant (I := fun c => ∀ v imm, Arrived c v imm → Sent peer c v imm) ?_ ?_ h
  · rintro c rfl v imm (hmem | ⟨cr, hmem, -⟩)
    · cases hmem
    · cases hmem
  · intro c x c' hr hI _ hs v imm harr
    refine Sent.step hs ?_
    rcases arrived_step hs harr with hold | ⟨p, hp, rfl, hann⟩
    · exact hI v imm hold
    · obtain ⟨⟨queue, hpost⟩, hdst, -⟩ := backed_reach hr p.src p hp rfl
      exact ⟨p.src, p.req, p.opcode, p.chunk, queue, p.wr, hpost, hdst.symm, hann⟩

/-! ## Each node by itself

A node of a run of the cluster has made a run of its own, in which completions come from posts. -/

/-- The completions node `v` handles are ones the provider has raised. -/
def Raised (peer : ν → Ptr → ν) (c : Cluster ν) (v : ν) : Action → Prop
  | .completion _ cr _ =>
    (cr.sR = true → Sent peer c v cr.immData) ∧
      (cr.sR = false → cr.userCtx ∈ (c.node v).outstanding)
  | _ => True

/-- A completion that is handled has been raised by the provider. -/
theorem raised_step (h : (clusterSystem peer workers capacity memory).Reach ok c) {v : ν}
    {a : Action} {f : Fabric ν} {s : Transport} (hs : (c.node v).step a = some s)
    (hnote : c.env.note peer v (c.node v) a s = some f) : Raised peer c v a := by
  cases Fabric.noted hs hnote with
  | quiet ha =>
    cases a with
    | completion k cr status => exact absurd rfl (ha k cr status)
    | _ => trivial
  | post hcause => cases hcause <;> trivial
  | @sent _ cr _ _ _ hside hdue =>
    refine ⟨fun hrecv => absurd (hside.symm.trans hrecv) Bool.false_ne_true, fun _ => ?_⟩
    have howed := (balance_reach h v).owed cr.userCtx
    have hpos := List.count_pos_iff.mpr hdue
    exact List.count_pos_iff.mp (by omega)
  | received hside _ harr =>
    exact ⟨fun _ => sent_reach h v _ (.inl harr),
      fun hlocal => absurd (hlocal.symm.trans hside) Bool.false_ne_true⟩

/-- The run a node of a cluster has made. -/
theorem reach_transport (okNode : Transport → Action → Prop) (v : ν)
    (hok : ∀ c a, (clusterSystem peer workers capacity memory).Reach ok c → ok c (.node v a) →
      Raised peer c v a → okNode (c.node v) a)
    (h : (clusterSystem peer workers capacity memory).Reach ok c) :
    (transportSystem (workers v) (capacity v)).Reach okNode (c.node v) :=
  Wiring.reach_node v (fun n a _ _ hr ha hs hn => hok n a hr ha (raised_step hr hs hn)) h

/-- Each node of a cluster is in a run of its own. -/
theorem reach_alone (h : (clusterSystem peer workers capacity memory).Reach ok c) (v : ν) :
    (transportSystem (workers v) (capacity v)).Reach (fun _ _ => True) (c.node v) :=
  reach_transport _ v (fun _ _ _ _ _ => trivial) h

end Runs

/-! ## Letting the provider copy

A run in which every write is copied in one go stands for a run that copies byte after byte: what
the nodes do does not depend on the memory. -/

namespace Fabric

/-- Everything under way has been copied, and the memory is `memory`. -/
def settled (f : Fabric ν) (memory : ν → BitVec 64 → BitVec 8) : Fabric ν :=
  { f with memory, flight := f.flight.map fun p => { p with todo := [] } }

/-- The number of bytes yet to be copied. -/
def backlog (flight : List (Packet ν)) : Nat := (flight.map fun p => p.todo.length).sum

/-- With nothing left to copy, a provider is settled. -/
theorem settled_of_backlog {f : Fabric ν} (h : backlog f.flight = 0) : f.settled f.memory = f := by
  have hdone : ∀ p ∈ f.flight, ({ p with todo := [] } : Packet ν) = p := by
    intro p hp
    have hzero := List.sum_eq_zero_iff.mp h _ (List.mem_map_of_mem hp)
    rw [← List.length_eq_zero_iff.mp hzero]
  rw [settled, List.map_congr_left hdone, List.map_id']

end Fabric

/-- The cluster with another memory. -/
def Cluster.withMemory (c : Cluster ν) (memory : ν → BitVec 64 → BitVec 8) : Cluster ν :=
  ⟨c.node, { c.env with memory }⟩

section Settle

variable [DecidableEq ν] {workers : ν → Nat} {capacity : ν → BitVec 32}
  {memory : ν → BitVec 64 → BitVec 8} {ok : Cluster ν → Act ν Action (Carry ν) → Prop}
  {c c' : Cluster ν}

/-- The provider can copy whatever is under way. -/
theorem settle_reach (owns : ν → Nat → Prop)
    (hok : ∀ (c : Cluster ν) i j, (∀ p ∈ c.env.flight, owns p.src p.req) → ok c (.env (.copy i j)))
    (n : Nat) : ∀ {c : Cluster ν}, Fabric.backlog c.env.flight = n →
      (clusterSystem peer workers capacity memory).Reach ok c →
      (∀ p ∈ c.env.flight, owns p.src p.req) →
      ∃ m, (clusterSystem peer workers capacity memory).Reach ok ⟨c.node, c.env.settled m⟩ := by
  induction n with
  | zero =>
    intro c hn h _
    exact ⟨c.env.memory, by rw [Fabric.settled_of_backlog hn]; exact h⟩
  | succ n ih =>
    intro c hn h howns
    -- some work request has a byte left
    have hleft : ∃ p ∈ c.env.flight, p.todo ≠ [] := by
      by_contra hnone
      have hzero : Fabric.backlog c.env.flight = 0 := by
        refine List.sum_eq_zero_iff.mpr fun x hx => ?_
        obtain ⟨p, hp, rfl⟩ := List.mem_map.mp hx
        rw [Decidable.not_not.mp fun hne => hnone ⟨p, hp, hne⟩, List.length_nil]
      omega
    obtain ⟨p, hp, hne⟩ := hleft
    obtain ⟨i, hi⟩ := List.getElem?_of_mem hp
    obtain ⟨byte, rest, htodo⟩ := List.exists_cons_of_ne_nil hne
    obtain ⟨before, after, hflight, hset, -⟩ := split_at hi
    let memory' := Fabric.poke c.env.memory p.dst byte.2 (c.env.memory p.src byte.1)
    let flight' := before ++ { p with todo := rest } :: after
    have hstep : (wiring peer).net c (.env (.copy i 0)) =
        some ⟨c.node, { c.env with memory := memory', flight := flight' }⟩ := by
      show ((Fabric.move c.env (.copy i 0)).map fun env => (⟨c.node, env⟩ : Cluster ν)) = _
      simp only [Fabric.move, Fabric.copied, hi, htodo, List.getElem?_cons_zero, Option.map_some,
        hset, List.eraseIdx_cons_zero, memory', flight']
    have hbacklog : Fabric.backlog flight' = n := by
      have hbefore := hn
      simp only [Fabric.backlog, hflight, htodo, flight', List.map_append, List.map_cons,
        List.sum_append, List.sum_cons, List.length_cons] at hbefore ⊢
      omega
    have howns' : ∀ p' ∈ flight', owns p'.src p'.req := by
      intro p' hp'
      rcases List.mem_append.mp hp' with hmem | hmem
      · exact howns p' (hflight ▸ List.mem_append_left _ hmem)
      rcases List.mem_cons.mp hmem with rfl | hmem
      · exact howns p hp
      · exact howns p' (hflight ▸ List.mem_append_right _ (List.mem_cons_of_mem _ hmem))
    obtain ⟨m, hm⟩ := ih hbacklog (h.step (hok c i 0 howns) hstep) howns'
    refine ⟨m, ?_⟩
    have hsettled : Fabric.settled { c.env with memory := memory', flight := flight' } m =
        c.env.settled m := by
      simp only [Fabric.settled, hflight, flight', List.map_append, List.map_cons]
    rw [← hsettled]
    exact hm

/-- The step does not touch the memory. -/
def Act.steady : Act ν Action (Carry ν) → Bool
  | .env (.copy _ _) => false
  | .env (.store _ _ _) => false
  | _ => true

/-- What a node does is noted whatever is in memory. -/
theorem Fabric.note_withMemory {f f' : Fabric ν} {v : ν} {s s' : Transport} {a : Action}
    (h : f.note peer v s a s' = some f') (m : ν → BitVec 64 → BitVec 8) :
    Fabric.note peer { f with memory := m } v s a s' = some { f' with memory := m } := by
  cases a with
  | completion k cr status =>
    simp only [Fabric.note] at h ⊢
    split_ifs at h ⊢ <;> cases h <;> rfl
  | _ =>
    cases h
    rfl

/-- The steps that copy nothing do not look at the memory. -/
theorem Fabric.move_withMemory {f f' : Fabric ν} {b : Carry ν}
    (hb : Act.steady (.env b : Act ν Action (Carry ν)) = true) (h : f.move b = some f')
    (m : ν → BitVec 64 → BitVec 8) :
    Fabric.move { f with memory := m } b = some { f' with memory := m } := by
  cases b with
  | copy i j => cases hb
  | store v addr byte => cases hb
  | finish i | deliver i imm =>
    simp only [Fabric.move] at h ⊢
    split at h
    · obtain ⟨hif, h⟩ := Option.ite_none_right_eq_some.mp h
      cases h
      rw [if_pos hif]
      rfl
    · cases h
  | fail i =>
    obtain ⟨p, hp, rfl⟩ := Option.map_eq_some_iff.mp h
    simp only [Fabric.move, hp, Option.map_some]
    rfl
  | internal k =>
    cases h
    rfl

/-- A step of the cluster, or `none`: everything under way is copied. -/
def quickStep (peer : ν → Ptr → ν) (c : Cluster ν) :
    Option (Act ν Action (Carry ν)) → Option (Cluster ν)
  | some x => (wiring peer).net c x
  | none => some ⟨c.node, c.env.settled c.env.memory⟩

/-- A step that does not touch the memory is the same step in any memory. -/
theorem net_withMemory {x : Act ν Action (Carry ν)} (hx : Act.steady x = true)
    (hs : (wiring peer).net c x = some c') (m : ν → BitVec 64 → BitVec 8) :
    (wiring peer).net (c.withMemory m) x = some (c'.withMemory m) := by
  cases x with
  | node v a =>
    obtain ⟨s, f, hstep, hnote, rfl⟩ := Wiring.net_node hs
    show ((wiring peer).step (c.node v) a).bind _ = _
    rw [hstep, Option.bind_some]
    show (Fabric.note peer { c.env with memory := m } v (c.node v) a s).map _ = _
    rw [Fabric.note_withMemory hnote m]
    rfl
  | env y =>
    obtain ⟨f, hmove, rfl⟩ := Wiring.net_env hs
    show (Fabric.move { c.env with memory := m } y).map _ = _
    rw [Fabric.move_withMemory hx hmove m]
    rfl

/-- An evaluated run that copies every write in one go stands for a run of the cluster. -/
theorem quick_reach (owns : ν → Nat → Prop)
    (okb : Cluster ν → Option (Act ν Action (Carry ν)) → Bool)
    (hact : ∀ c x m, okb c (some x) = true → Act.steady x = true ∧ ok (c.withMemory m) x)
    (hnone : ∀ c, okb c none = true → ∀ p ∈ c.env.flight, owns p.src p.req)
    (hcopy : ∀ (c : Cluster ν) i j, (∀ p ∈ c.env.flight, owns p.src p.req) → ok c (.env (.copy i j)))
    (xs : List (Option (Act ν Action (Carry ν)))) :
    ∀ {c c' : Cluster ν} {m : ν → BitVec 64 → BitVec 8},
      (clusterSystem peer workers capacity memory).Reach ok (c.withMemory m) →
      exec okb (quickStep peer) c xs = some c' →
      ∃ m', (clusterSystem peer workers capacity memory).Reach ok (c'.withMemory m') := by
  induction xs with
  | nil =>
    intro c c' m h hexec
    obtain rfl : c = c' := by simpa [exec] using hexec
    exact ⟨m, h⟩
  | cons x xs ih =>
    intro c c' m h hexec
    rw [exec] at hexec
    split at hexec
    · rename_i c₁ hok hs
      cases x with
      | some x =>
        obtain ⟨hsteady, hx⟩ := hact c x m hok
        exact ih (h.step hx (net_withMemory hsteady hs m)) hexec
      | none =>
        cases hs
        obtain ⟨m', hm'⟩ := settle_reach owns hcopy _ rfl h (hnone c hok)
        exact ih (c := ⟨c.node, c.env.settled c.env.memory⟩) (m := m') hm' hexec
    · cases hexec

end Settle

end OsTransport
