/-
  The two ways to clear an injection point.

  `os_transport_inject_clear` disables one point, `os_transport_inject_clear_all` every point, and
  the latter also gives each its full count back.  So a point that is cleared by name and set again
  goes on with what was left of its count.

  `clears_agree_iff` says for which points the two cannot be told apart by what is called on the name
  afterwards: those without a count, and those that have all of it left.  One direction is a
  simulation (`Alike`); for the other, a point with less is executed until it stops.

  1. `Alike` relates two points that differ in their counts at most, and only without a limit;
     `AlikeOn.call` carries it through every call, so the results agree (`AlikeOn.results`);
  2. the two clears leave points that are alike, or equal, when the point has no limit or all of its
     count (`clearsAgree_of_full`);
  3. otherwise the two are told apart by setting the name again and executing it once more than was
     left: a limited point passes exactly when its count is spent (`results_executes`), and after
     the clear of all points it is not;
  4. for the converse a count must not exceed its limit, which holds in every reachable table
     (`counted_reach`).
-/
import OsTransport.Inject

namespace OsTransport

open Transition Slots

/-- A setter, `os_transport_inject_set_frequency` or `os_transport_inject_execute` on the name. -/
def InjectCall.on (name : CString) : InjectCall → Prop
  | .setSleep name' _ => name' = name
  | .setReturnError name' _ => name' = name
  | .setPrint name' _ => name' = name
  | .setFrequency name' _ => name' = name
  | .execute name' _ _ => name' = name
  | _ => False

/-- What a sequence of calls returns. -/
def InjectRegistry.results (s : InjectRegistry) : List (Int × InjectCall) → List InjectResult
  | [] => []
  | a :: as => (s.call a.1 a.2).2 :: (s.call a.1 a.2).1.results as

/-- Whichever way the point is cleared, later calls on its name return the same and trigger at the
    same executes. -/
def InjectRegistry.ClearsAgree (s : InjectRegistry) (name : CString) : Prop :=
  ∀ calls : List (Int × InjectCall), (∀ a ∈ calls, a.2.on name) →
    (s.clear name).results calls = s.clearAll.results calls

/-! ## Points that cannot be told apart

Two points are alike when no call on the name gives different results, now or later. -/

/-- The points differ in their counts at most, and only while there is no limit. -/
structure InjectPoint.Alike (p q : InjectPoint) : Prop where
  same : q = { p with triggerCount := q.triggerCount }
  count : p.triggerLimit = 0#32 ∨ p.triggerCount = q.triggerCount

/-- Without a limit it is the frequency that decides, and the point stays as it is. -/
theorem InjectPoint.trigger_unlimited {p : InjectPoint} (h : p.triggerLimit = 0#32) (draw : BitVec 32) :
    p.trigger draw = (p, if p.frequencyPercent > 0#32 ∧ p.frequencyPercent < 100#32 then
      decide (draw % 100#32 < p.frequencyPercent) else true) := by
  unfold InjectPoint.trigger
  rw [h, if_neg (by decide)]
  split <;> rfl

/-- Points alike trigger alike, and stay so. -/
theorem InjectPoint.Alike.trigger {p q : InjectPoint} (h : p.Alike q) (draw : BitVec 32) :
    (p.trigger draw).2 = (q.trigger draw).2 ∧ (p.trigger draw).1.Alike (q.trigger draw).1 := by
  obtain ⟨hsame, hlimit | hcount⟩ := h
  · have hlimit' : q.triggerLimit = 0#32 := by rw [hsame]; exact hlimit
    have hfreq : q.frequencyPercent = p.frequencyPercent := by rw [hsame]
    rw [p.trigger_unlimited hlimit, q.trigger_unlimited hlimit', hfreq]
    exact ⟨rfl, hsame, .inl hlimit⟩
  · obtain rfl : q = p := by rw [hsame, ← hcount]
    exact ⟨rfl, rfl, .inr rfl⟩

namespace InjectRegistry

variable {s t : InjectRegistry} {name : CString}

/-- The two tables have the name, with points that cannot be told apart. -/
def AlikeOn (name : CString) (s t : InjectRegistry) : Prop :=
  ∃ p q, s.find name = some p ∧ t.find name = some q ∧ p.Alike q

/-- An update that respects likeness keeps it. -/
theorem AlikeOn.updatePoint {f : InjectPoint → InjectPoint} (h : AlikeOn name s t)
    (hname : ∀ p, (f p).name = p.name) (hf : ∀ p q, p.Alike q → (f p).Alike (f q)) :
    AlikeOn name (s.updatePoint name f) (t.updatePoint name f) := by
  obtain ⟨p, q, hp, hq, halike⟩ := h
  refine ⟨f p, f q, ?_, ?_, hf p q halike⟩
  · rw [find_updatePoint hname, hp]
    rfl
  · rw [find_updatePoint hname, hq]
    rfl

/-- A call on the name returns the same in both tables, and leaves them alike. -/
theorem AlikeOn.call {c : InjectCall} (h : AlikeOn name s t) (pid : Int) (hc : c.on name) :
    (s.call pid c).2 = (t.call pid c).2 ∧ AlikeOn name (s.call pid c).1 (t.call pid c).1 := by
  have hfound := h
  obtain ⟨p, q, hp, hq, halike⟩ := hfound
  have hset : ∀ n, c.sets = some n → n = name → (s.call pid c).2 = (t.call pid c).2 ∧
      AlikeOn name (s.call pid c).1 (t.call pid c).1 := by
    rintro n hsets rfl
    obtain ⟨action, hfill, hcall, -⟩ := call_sets hsets
    rw [hcall s pid, hcall t pid, setPoint_some hp, setPoint_some hq]
    refine ⟨rfl, h.updatePoint (f := fun p => { action p with enabled := true }) hfill.name ?_⟩
    intro p q hpq
    refine ⟨?_, ?_⟩
    · rw [hpq.same, hfill.recount]
    · dsimp only
      rw [hfill.limit, hfill.count, hfill.count]
      exact hpq.count
  cases c with
  | setSleep n ms => exact hset n rfl hc
  | setReturnError n e => exact hset n rfl hc
  | setPrint n message => exact hset n rfl hc
  | setFrequency n k =>
    obtain rfl := hc
    have hnext := h.updatePoint (f := fun p => if k ≤ 100#32 then
        { p with frequencyPercent := k, triggerLimit := 0#32 }
      else { p with triggerCount := k - 100#32, triggerLimit := k - 100#32, frequencyPercent := 0#32 })
      (fun p => by split <;> rfl) fun p q hpq => by
        split
        · exact ⟨by rw [hpq.same], .inl rfl⟩
        · exact ⟨by rw [hpq.same], .inr rfl⟩
    simp only [InjectRegistry.call, setFrequency, hp, hq, true_and]
    exact hnext
  | clear | clearAll => exact hc.elim
  | execute n draw now =>
    obtain rfl := hc
    obtain ⟨htrigger, -⟩ := halike.trigger draw
    have henabled : q.enabled = p.enabled := by rw [halike.same]
    have hperform : perform n q = perform n p := by
      rw [halike.same]
      rfl
    have hnext := h.updatePoint (f := fun p => (p.trigger draw).1) (fun p => by rw [trigger_keeps])
      fun p q hpq => (hpq.trigger draw).2
    simp only [InjectRegistry.call, execute, hp, hq, henabled, ← htrigger, hperform]
    split
    · split
      · exact ⟨rfl, hnext⟩
      · exact ⟨rfl, hnext⟩
    · exact ⟨rfl, h⟩

/-- The same of a sequence of calls. -/
theorem AlikeOn.results : ∀ {calls : List (Int × InjectCall)} {s t : InjectRegistry},
    AlikeOn name s t → (∀ a ∈ calls, a.2.on name) → s.results calls = t.results calls
  | [], _, _, _, _ => rfl
  | a :: as, s, t, h, hon => by
      obtain ⟨hret, hnext⟩ := h.call a.1 (hon a List.mem_cons_self)
      rw [InjectRegistry.results, InjectRegistry.results, hret]
      exact congrArg _ (hnext.results fun b hb => hon b (List.mem_cons_of_mem _ hb))

/-! ## What the clears leave

Both disable the point; one gives its count back. -/

/-- `clear` disables the point it names. -/
theorem find_clear {p : InjectPoint} (hp : s.find name = some p) :
    (s.clear name).find name = some { p with enabled := false } := by
  have hfound : (s.updatePoint name fun p => { p with enabled := false }).find name
      = (s.find name).map _ := find_updatePoint fun p => rfl
  exact hfound.trans (by rw [hp]; rfl)

/-- `clear_all` disables it too, and gives its triggers back. -/
theorem find_clearAll {p : InjectPoint} (hp : s.find name = some p) :
    s.clearAll.find name = some { p with enabled := false, triggerCount := p.triggerLimit } := by
  show (s.points.map _).find? _ = _
  rw [List.find?_map]
  exact congrArg (Option.map _) hp

/-- With all its triggers left, both clears do the same. -/
theorem clearsAgree_of_full {p : InjectPoint} (hp : s.find name = some p)
    (hfull : p.triggerLimit = 0#32 ∨ p.triggerCount = p.triggerLimit) : s.ClearsAgree name := by
  intro calls hon
  exact AlikeOn.results ⟨_, _, find_clear hp, find_clearAll hp, rfl, hfull⟩ hon

/-! ## A count runs out

A limited point executes as often as it has left, and then not any more. -/

/-- `n` executes of the name. -/
def executes (name : CString) (n : Nat) : List (Int × InjectCall) :=
  List.replicate n (0, .execute name 0#32 0#64)

/-- A limited point triggers until its triggers are spent. -/
theorem trigger_limited {p : InjectPoint} (h : p.triggerLimit ≠ 0#32) (draw : BitVec 32) :
    p.trigger draw = if p.triggerCount = 0#32 then (p, false)
      else ({ p with triggerCount := p.triggerCount - 1#32 }, true) := by
  have hpos : p.triggerLimit > 0#32 := by
    have : p.triggerLimit.toNat ≠ 0 := fun hz => h (BitVec.eq_of_toNat_eq hz)
    exact BitVec.lt_def.mpr (Nat.pos_of_ne_zero this)
  unfold InjectPoint.trigger
  rw [if_pos hpos]
  by_cases hz : p.triggerCount = 0#32
  · -- the counter is taken below 0 and put back
    have hback : (p.triggerCount - 1#32) + 1#32 = p.triggerCount := BitVec.sub_add_cancel ..
    have hnot : ¬ p.triggerCount > 0#32 := by
      rw [hz]
      decide
    simp only [if_pos hz, if_neg hnot, hback]
  · rw [if_neg hz]
    have hpos' : p.triggerCount > 0#32 := by
      have : p.triggerCount.toNat ≠ 0 := fun hz' => hz (BitVec.eq_of_toNat_eq hz')
      exact BitVec.lt_def.mpr (Nat.pos_of_ne_zero this)
    simp only [hpos', if_true]

/-- Whatever the action of a point is, performing it is a trigger. -/
theorem triggered_perform (name : CString) (p : InjectPoint) : (perform name p).triggered = true := by
  unfold perform
  split <;> rfl

/-- A limited point triggers as often as its count says, and no more. -/
theorem results_executes : ∀ (n : Nat) {s : InjectRegistry} {p : InjectPoint}, s.find name = some p →
    p.enabled = true → p.triggerLimit ≠ 0#32 →
    (.execution passed ∈ s.results (executes name n) ↔ p.triggerCount.toNat < n)
  | 0, s, p, _, _, _ => by simp [executes, InjectRegistry.results]
  | n + 1, s, p, hp, henabled, hlimit => by
      have hfind : (s.execute name 0#32 0#64).1.find name = some (p.trigger 0#32).1 := by
        have hupdate : (s.updatePoint name fun p => (p.trigger 0#32).1).find name
            = (s.find name).map _ := find_updatePoint fun p => by rw [trigger_keeps]
        rw [hp] at hupdate
        simp only [execute, hp, henabled, if_true]
        split <;> exact hupdate
      show _ ∈ InjectResult.execution (s.execute name 0#32 0#64).2 ::
        (s.execute name 0#32 0#64).1.results (executes name n) ↔ _
      rw [List.mem_cons]
      by_cases hz : p.triggerCount = 0#32
      · have hret : (s.execute name 0#32 0#64).2 = passed := by
          simp only [execute, hp, henabled, if_true, trigger_limited hlimit, if_pos hz]
          rfl
        rw [hret, hz]
        simp
      · have htrigger : p.trigger 0#32 = ({ p with triggerCount := p.triggerCount - 1#32 }, true) := by
          rw [trigger_limited hlimit, if_neg hz]
        have hret : (s.execute name 0#32 0#64).2 = perform name p := by
          simp only [execute, hp, henabled, if_true, htrigger]
        have hne : InjectResult.execution passed ≠ .execution (s.execute name 0#32 0#64).2 := by
          rw [hret]
          intro heq
          have htriggered := triggered_perform name p
          rw [← InjectResult.execution.inj heq] at htriggered
          cases htriggered
        have hpos : p.triggerCount.toNat ≠ 0 := fun hz' => hz (BitVec.eq_of_toNat_eq hz')
        have hcount : (p.triggerCount - 1#32).toNat = p.triggerCount.toNat - 1 := by
          rw [BitVec.toNat_sub_of_le (BitVec.le_def.mpr (by simp; omega))]
          rfl
        have hrec := results_executes n (p := { p with triggerCount := p.triggerCount - 1#32 })
          (hfind.trans (by rw [htrigger])) henabled hlimit
        rw [hrec]
        show _ ∨ (p.triggerCount - 1#32).toNat < n ↔ _
        rw [hcount]
        constructor
        · rintro (heq | hlt)
          · exact absurd heq hne
          · omega
        · intro hlt
          exact .inr (by omega)

/-! ## The count never exceeds the limit

So a point with some of its count used has less than its limit, and is told apart by executing it.
-/

/-- A point with a limit has no more left than that. -/
def Counted (s : InjectRegistry) : Prop :=
  ∀ p ∈ s.points, p.triggerLimit = 0#32 ∨ p.triggerCount.toNat ≤ p.triggerLimit.toNat

/-- An update that keeps counts within limits. -/
theorem Counted.updatePoint {f : InjectPoint → InjectPoint} (h : s.Counted)
    (hf : ∀ p ∈ s.points, (f p).triggerLimit = 0#32 ∨ (f p).triggerCount.toNat ≤ (f p).triggerLimit.toNat) :
    (s.updatePoint name f).Counted := by
  intro p hp
  rcases mem_updateFirst hp with hold | ⟨q, hq, rfl⟩
  · exact h p hold
  · exact hf q hq

/-- Triggering takes from the count, down to 0. -/
theorem trigger_counted {p : InjectPoint} (draw : BitVec 32)
    (h : p.triggerLimit = 0#32 ∨ p.triggerCount.toNat ≤ p.triggerLimit.toNat) :
    (p.trigger draw).1.triggerLimit = 0#32 ∨
      (p.trigger draw).1.triggerCount.toNat ≤ (p.trigger draw).1.triggerLimit.toNat := by
  by_cases hlimit : p.triggerLimit = 0#32
  · rw [p.trigger_unlimited hlimit]
    exact .inl hlimit
  · rw [trigger_limited hlimit]
    have hle := h.resolve_left hlimit
    split
    · exact .inr hle
    · rename_i hz
      have hpos : p.triggerCount.toNat ≠ 0 := fun hz' => hz (BitVec.eq_of_toNat_eq hz')
      right
      show (p.triggerCount - 1#32).toNat ≤ p.triggerLimit.toNat
      rw [BitVec.toNat_sub_of_le (BitVec.le_def.mpr (by simp; omega))]
      exact Nat.le_trans (Nat.sub_le ..) hle

/-- One call keeps every count within its limit. -/
theorem Counted.call {pid : Int} {c : InjectCall} (h : s.Counted) : (s.call pid c).1.Counted := by
  have hsetter : ∀ n, c.sets = some n → (s.call pid c).1.Counted := by
    intro n hc
    obtain ⟨action, hfill, hcall, -⟩ := call_sets hc
    rw [hcall s pid]
    cases hfind : s.find n with
    | some q =>
      rw [setPoint_some hfind]
      refine h.updatePoint (f := fun p => { action p with enabled := true }) ?_
      intro p hp
      dsimp only
      rw [hfill.limit, hfill.count]
      exact h p hp
    | none =>
      rw [setPoint_none hfind]
      split
      · intro p hp
        rcases List.mem_append.mp hp with hold | hnew
        · exact h p hold
        · obtain rfl := List.mem_singleton.mp hnew
          left
          exact hfill.limit _
      · exact h
  cases c with
  | setSleep n ms => exact hsetter n rfl
  | setReturnError n e => exact hsetter n rfl
  | setPrint n message => exact hsetter n rfl
  | setFrequency n k =>
    show (s.setFrequency n k).1.Counted
    unfold setFrequency
    split
    · exact h
    · refine h.updatePoint ?_
      intro p _
      split
      · exact .inl rfl
      · exact .inr (Nat.le_refl _)
  | clear n => exact h.updatePoint fun p hp => h p hp
  | clearAll =>
    intro p hp
    obtain ⟨q, -, rfl⟩ := List.mem_map.mp hp
    exact .inr (Nat.le_refl _)
  | execute n draw now =>
    have hnext : (s.updatePoint n fun p => (p.trigger draw).1).Counted :=
      h.updatePoint fun p hp => trigger_counted draw (h p hp)
    show (s.execute n draw now).1.Counted
    unfold execute
    split
    · exact h
    · split
      · dsimp only
        split
        · exact hnext
        · exact hnext
      · exact h

/-- In every run every count is within its limit. -/
theorem counted_reach {ok : InjectRegistry → Int × InjectCall → Prop} (h : injectSystem.Reach ok s) :
    s.Counted := by
  refine h.invariant ?_ ?_
  · rintro s rfl p hp
    cases hp
  · rintro s a s' - hI - hs
    obtain rfl := Option.some.inj hs
    exact hI.call

/-- Setting the point again and executing it `n` times shows whether it had `n` left. -/
theorem results_set {p : InjectPoint} (hp : s.find name = some p) (hlimit : p.triggerLimit ≠ 0#32)
    (n : Nat) : .execution passed ∈ s.results ((0, .setReturnError name 0) :: executes name n) ↔
      p.triggerCount.toNat < n := by
  have hset : (s.setReturnError 0 name 0).1.find name
      = some { p with actionType := .returnError, returnValue := 0, enabled := true } := by
    rw [setReturnError, setPoint_some hp]
    have hfound : (s.updatePoint name fun p =>
        { p with actionType := .returnError, returnValue := 0, enabled := true }).find name
          = (s.find name).map _ := find_updatePoint fun p => rfl
    exact hfound.trans (by rw [hp]; rfl)
  have hexec := results_executes n hset rfl hlimit
  show _ ∈ InjectResult.code _ :: (s.setReturnError 0 name 0).1.results (executes name n) ↔ _
  rw [List.mem_cons, hexec]
  constructor
  · rintro (heq | hlt)
    · cases heq
    · exact hlt
  · exact .inr

end InjectRegistry

/-- **The two clears.**  For a name in the table they agree exactly when the point has no count, or
    all of it left. -/
theorem clears_agree_iff {s : InjectRegistry} {ok : InjectRegistry → Int × InjectCall → Prop}
    (h : injectSystem.Reach ok s) {name : CString} {p : InjectPoint} (hp : s.find name = some p) :
    s.ClearsAgree name ↔ p.triggerLimit = 0#32 ∨ p.triggerCount = p.triggerLimit := by
  refine ⟨fun hagree => ?_, InjectRegistry.clearsAgree_of_full hp⟩
  by_contra hnot
  obtain ⟨hlimit, hcount⟩ := not_or.mp hnot
  have hle := (InjectRegistry.counted_reach h p (List.mem_of_find?_eq_some hp)).resolve_left hlimit
  have hlt : p.triggerCount.toNat < p.triggerLimit.toNat :=
    Nat.lt_of_le_of_ne hle fun heq => hcount (BitVec.eq_of_toNat_eq heq)
  -- one execute more than is left: only the point that got its count back still triggers
  have hsame := hagree ((0, .setReturnError name 0) ::
    InjectRegistry.executes name (p.triggerCount.toNat + 1)) (by
    intro a ha
    rcases List.mem_cons.mp ha with rfl | ha
    · rfl
    · obtain rfl := List.eq_of_mem_replicate ha
      rfl)
  have hclear := (InjectRegistry.results_set (InjectRegistry.find_clear hp) hlimit
    (p.triggerCount.toNat + 1)).mpr (Nat.lt_succ_self _)
  have hall := (InjectRegistry.results_set (InjectRegistry.find_clearAll hp) hlimit
    (p.triggerCount.toNat + 1)).mp (hsame ▸ hclear)
  dsimp only at hall
  omega

/-- Two triggers allowed, none or one used. -/
def limited (used : Nat) : List (Int × InjectCall) :=
  [(1, .setReturnError nameA 5), (1, .setFrequency nameA 102#32)] ++
    List.replicate used (2, .execute nameA 0#32 0#64)

/-- A limited point that has not been triggered: both clears agree. -/
theorem clears_agree_iff_unused : ∃ s : InjectRegistry, (∃ p, s.find nameA = some p ∧
    p.triggerLimit = 2#32) ∧ s.ClearsAgree nameA := by
  have hrun : (exec (fun _ _ => true) (fun s a => some (InjectRegistry.call s a.1 a.2).1) .created
      (limited 0)).any (fun s => (s.find nameA).any fun p =>
        p.triggerLimit == 2#32 && p.triggerCount == p.triggerLimit) = true := by
    decide +kernel
  have hok : ∀ (_ : InjectRegistry) (_ : Int × InjectCall), true = true → True := fun _ _ _ => trivial
  obtain ⟨s, hr, hP⟩ := System.Reach.of_exec (· = InjectRegistry.created) _ hok rfl _ _ hrun
  obtain ⟨p, hp, hcond⟩ := (Option.any_eq_true _ _).mp hP
  obtain ⟨hlimit, hcount⟩ := Bool.and_eq_true_iff.mp hcond
  exact ⟨s, ⟨p, hp, beq_iff_eq.mp hlimit⟩, (clears_agree_iff hr hp).mpr (.inr (beq_iff_eq.mp hcount))⟩

/-- One of two triggers is used.  Cleared by name and set again the point triggers once, after
    `os_transport_inject_clear_all` twice. -/
theorem used_count_differs : ¬ ∀ s, injectSystem.Reach (fun _ _ => True) s →
    ∀ name : CString, name ∈ s.names → name.bytes.length < injectNameMaxLen → s.ClearsAgree name := by
  intro hall
  have hrun : (exec (fun _ _ => true) (fun s a => some (InjectRegistry.call s a.1 a.2).1) .created
      (limited 1)).any (fun s => decide (nameA ∈ s.names ∧
        (s.clear nameA).results ((1, .setReturnError nameA 5) :: InjectRegistry.executes nameA 2) ≠
        s.clearAll.results ((1, .setReturnError nameA 5) :: InjectRegistry.executes nameA 2))) = true := by
    decide +kernel
  have hok : ∀ (_ : InjectRegistry) (_ : Int × InjectCall), true = true → True := fun _ _ _ => trivial
  obtain ⟨s, hr, hP⟩ := System.Reach.of_exec (· = InjectRegistry.created) _ hok rfl _ _ hrun
  obtain ⟨hname, hne⟩ := of_decide_eq_true hP
  refine hne (hall s hr nameA hname (by decide) _ ?_)
  intro a ha
  rcases List.mem_cons.mp ha with rfl | ha
  · rfl
  · obtain rfl := List.eq_of_mem_replicate ha
    rfl

end OsTransport
