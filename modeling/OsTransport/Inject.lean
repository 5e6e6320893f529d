/-
  The registry of injection points.

  A test sets points by name in a table in shared memory; the code under test executes them by
  name.  Every function below is one section under the spin lock of the table.  The three setters
  are one function (`setPoint`) applied to what they put into the slot.

  A slot keeps 63 characters of its name, but a name is looked up in full, so a longer name is
  never found again: each setting of it takes another slot, and executing it does nothing.  Where
  only shorter names are set the table is keyed by name, and `inject_keyed` says what follows
  from that along a run.

  The proof:

  1. `call_sets` says in one statement what the three setters leave: a slot with the name, filled as
     the setter fills it, or the table as it was if it is full; `names_call` says what any call does
     to the names;
  2. while only short names are set no two slots have one name, and a table holds at most 32
     (`table_reach`); a name that is set stays, cleared or not (`names_kept`);
  3. `Armed` is a point that is enabled and set to return an error.  Calls that neither set nor clear
     the name keep it (`Armed.call`), setting it makes it (`armed_set`), and executing the name
     returns the error if there is no limit and no frequency (`Armed.execute`);
  4. `inject_keyed` states these of every reachable table, the last two of all runs on from it.

  `long_name_twice` sets a name of 64 characters twice and finds it in two slots.
-/
import OsTransport.Lib.Slots
import OsTransport.Lib.Transition
import Mathlib.Data.List.Nodup

namespace OsTransport

open Transition Slots

/-! ## The table

Slots, and the ring of what was triggered.  A C string is its bytes without a zero. -/

/-- The characters of a NUL-terminated string. -/
structure CString where
  bytes : List UInt8
  noNul : (0 : UInt8) ∉ bytes
  deriving DecidableEq

namespace CString

def empty : CString := ⟨[], List.not_mem_nil⟩

/-- `strncpy(dst, s, n); dst[n] = 0`. -/
def strncpy (s : CString) (n : Nat) : CString :=
  ⟨s.bytes.take n, fun h => s.noNul (List.mem_of_mem_take h)⟩

/-- A name that fits is copied whole. -/
theorem strncpy_of_le {s : CString} {n : Nat} (h : s.bytes.length ≤ n) : s.strncpy n = s := by
  obtain ⟨bytes, noNul⟩ := s
  simp only [strncpy, mk.injEq]
  exact List.take_of_length_le h

end CString

def maxInjectPoints : Nat := 32
def injectNameMaxLen : Nat := 64
def injectActionMaxLen : Nat := 128
def injectRingSize : BitVec 32 := 64#32

inductive InjectActionType
  | none
  | returnError
  | sleep
  | print
  deriving DecidableEq, Repr

/-- `os_transport_inject_point_t`. -/
structure InjectPoint where
  name : CString
  actionType : InjectActionType
  returnValue : Int
  sleepMs : BitVec 32
  message : CString
  enabled : Bool
  frequencyPercent : BitVec 32
  triggerCount : BitVec 32
  triggerLimit : BitVec 32
  deriving DecidableEq

structure InjectRecord where
  timestampNs : BitVec 64
  name : CString
  actionType : InjectActionType
  returnValue : Int
  deriving DecidableEq

/-- `os_transport_inject_registry_t`: `points` are the first `count` slots. -/
structure InjectRegistry where
  seq : BitVec 32
  writerPid : Int
  points : List InjectPoint
  ring : Nat → InjectRecord
  ringTail : BitVec 32

/-- After `memset` and a name. -/
def InjectPoint.blank (name : CString) : InjectPoint :=
  ⟨name, .none, 0, 0#32, .empty, false, 0#32, 0#32, 0#32⟩

/-- Created by `os_transport_inject_init`. -/
def InjectRegistry.created : InjectRegistry where
  seq := 1#32
  writerPid := 0
  points := []
  ring _ := ⟨0#64, .empty, .none, 0⟩
  ringTail := 0#32

namespace InjectRegistry

variable (s : InjectRegistry)

/-- `strcmp(shm->points[i].name, name) == 0`, for the first such `i`. -/
def find (name : CString) : Option InjectPoint := s.points.find? fun p => p.name == name

/-- Change the point that `find` finds. -/
def updatePoint (name : CString) (f : InjectPoint → InjectPoint) : InjectRegistry :=
  { s with points := updateFirst (fun p => p.name == name) f s.points }

/-! ## Setting and clearing

A setter takes the slot of its name, or the first free one. -/

/-- The setters: find or take a slot, put the action into it, enable it. -/
def setPoint (pid : Int) (name : CString) (action : InjectPoint → InjectPoint) : InjectRegistry × Int :=
  let fill := fun p => { action p with enabled := true }
  match s.find name with
  | some _ => ({ s.updatePoint name fill with writerPid := pid, seq := s.seq + 1#32 }, 0)
  | none =>
    if s.points.length < maxInjectPoints then
      let p := fill (.blank (name.strncpy (injectNameMaxLen - 1)))
      ({ s with points := s.points ++ [p], writerPid := pid, seq := s.seq + 1#32 }, 0)
    else (s, -1)

/-- `os_transport_inject_set_sleep`. -/
def setSleep (pid : Int) (name : CString) (ms : BitVec 32) : InjectRegistry × Int :=
  s.setPoint pid name fun p => { p with actionType := .sleep, sleepMs := ms }

/-- `os_transport_inject_set_return_error`. -/
def setReturnError (pid : Int) (name : CString) (errorCode : Int) : InjectRegistry × Int :=
  s.setPoint pid name fun p => { p with actionType := .returnError, returnValue := errorCode }

/-- `os_transport_inject_set_print`. -/
def setPrint (pid : Int) (name message : CString) : InjectRegistry × Int :=
  s.setPoint pid name fun p =>
    { p with actionType := .print, message := message.strncpy (injectActionMaxLen - 1) }

/-- `os_transport_inject_set_frequency`. -/
def setFrequency (name : CString) (percentOrCount : BitVec 32) : InjectRegistry × Int :=
  match s.find name with
  | none => (s, -1)
  | some _ =>
    let s' := s.updatePoint name fun p =>
      if percentOrCount ≤ 100#32 then
        { p with frequencyPercent := percentOrCount, triggerLimit := 0#32 }
      else
        let cnt := percentOrCount - 100#32
        { p with triggerCount := cnt, triggerLimit := cnt, frequencyPercent := 0#32 }
    ({ s' with seq := s.seq + 1#32 }, 0)

/-- `os_transport_inject_clear`. -/
def clear (name : CString) : InjectRegistry :=
  { s.updatePoint name fun p => { p with enabled := false } with seq := s.seq + 1#32 }

/-- `os_transport_inject_clear_all`. -/
def clearAll : InjectRegistry :=
  { s with
    points := s.points.map fun p => { p with enabled := false, triggerCount := p.triggerLimit }
    seq := s.seq + 1#32 }

end InjectRegistry

/-! ## Executing

What an enabled point does, with its frequency and its count. -/

/-- What a triggered point does, before `os_transport_inject_execute` returns. -/
inductive InjectEffect
  | sleep (us : BitVec 32)
  | print (name message : CString)
  deriving DecidableEq

/-- The result of `os_transport_inject_execute`. -/
structure InjectExecution where
  ret : Int
  /-- What is stored through `out_return_value`. -/
  outReturnValue : Option Int
  triggered : Bool
  effect : Option InjectEffect
  deriving DecidableEq

/-- Whether an enabled point triggers, given what `rand_r` returns, and the point after it. -/
def InjectPoint.trigger (p : InjectPoint) (draw : BitVec 32) : InjectPoint × Bool :=
  if p.triggerLimit > 0#32 then
    let oldVal := p.triggerCount
    let p := { p with triggerCount := oldVal - 1#32 }
    if oldVal > 0#32 then (p, true)
    else ({ p with triggerCount := p.triggerCount + 1#32 }, false)
  else if p.frequencyPercent > 0#32 ∧ p.frequencyPercent < 100#32 then
    (p, decide (draw % 100#32 < p.frequencyPercent))
  else (p, true)

namespace InjectRegistry

variable (s : InjectRegistry)

/-- The trigger record. -/
def recordTrigger (name : CString) (p : InjectPoint) (now : BitVec 64) : InjectRegistry :=
  { s with
    ring := fun i => if i = s.ringTail.toNat then
        ⟨now, name.strncpy (injectNameMaxLen - 1), p.actionType, p.returnValue⟩
      else s.ring i
    ringTail := (s.ringTail + 1#32) % injectRingSize }

/-- What the action of a triggered point returns and does. -/
def perform (name : CString) (p : InjectPoint) : InjectExecution :=
  match p.actionType with
  | .sleep => ⟨0, none, true, some (.sleep (p.sleepMs * 1000#32))⟩
  | .returnError => ⟨1, some p.returnValue, true, none⟩
  | .print => ⟨0, none, true, some (.print name p.message)⟩
  | .none => ⟨0, none, true, none⟩

/-- The result when nothing is triggered. -/
def passed : InjectExecution := ⟨0, none, false, none⟩

/-- `os_transport_inject_execute`, with the number `rand_r` returns and the time. -/
def execute (name : CString) (draw : BitVec 32) (now : BitVec 64) : InjectRegistry × InjectExecution :=
  match s.find name with
  | none => (s, passed)
  | some p =>
    if p.enabled then
      let s' := s.updatePoint name fun p => (p.trigger draw).1
      if (p.trigger draw).2 then (s'.recordTrigger name p now, perform name p)
      else (s', passed)
    else (s, passed)

end InjectRegistry

/-! ## Calls

One call of the interface is one step. -/

inductive InjectCall
  | setSleep (name : CString) (ms : BitVec 32)
  | setReturnError (name : CString) (errorCode : Int)
  | setPrint (name message : CString)
  | setFrequency (name : CString) (percentOrCount : BitVec 32)
  | clear (name : CString)
  | clearAll
  | execute (name : CString) (draw : BitVec 32) (now : BitVec 64)

/-- What a call returns. -/
inductive InjectResult
  | code (ret : Int)
  | void
  | execution (result : InjectExecution)
  deriving DecidableEq

/-- A call by process `pid`. -/
def InjectRegistry.call (s : InjectRegistry) (pid : Int) : InjectCall → InjectRegistry × InjectResult
  | .setSleep name ms => ((s.setSleep pid name ms).1, .code (s.setSleep pid name ms).2)
  | .setReturnError name e => ((s.setReturnError pid name e).1, .code (s.setReturnError pid name e).2)
  | .setPrint name message => ((s.setPrint pid name message).1, .code (s.setPrint pid name message).2)
  | .setFrequency name n => ((s.setFrequency name n).1, .code (s.setFrequency name n).2)
  | .clear name => (s.clear name, .void)
  | .clearAll => (s.clearAll, .void)
  | .execute name draw now => ((s.execute name draw now).1, .execution (s.execute name draw now).2)

/-- All sequences of calls, by whatever processes. -/
def injectSystem : System InjectRegistry (Int × InjectCall) :=
  .ofFun (· = InjectRegistry.created) fun s a => some (s.call a.1 a.2).1

/-! ## One call

What a call does to the names in the table, and to the point of each name. -/

/-- The name a setter is called with. -/
def InjectCall.sets : InjectCall → Option CString
  | .setSleep name _ => some name
  | .setReturnError name _ => some name
  | .setPrint name _ => some name
  | _ => none

/-- The call clears the point of that name. -/
def InjectCall.clears (name : CString) : InjectCall → Bool
  | .clear name' => name' == name
  | .clearAll => true
  | _ => false

namespace InjectRegistry

variable {s : InjectRegistry} {name : CString} {f : InjectPoint → InjectPoint}

def names (s : InjectRegistry) : List CString := s.points.map InjectPoint.name

/-- A point is found by its name if it is registered. -/
theorem find_isSome : (s.find name).isSome = true ↔ name ∈ s.names := by
  simp only [find, names, List.find?_isSome, List.mem_map, beq_iff_eq]

/-- And not otherwise. -/
theorem find_eq_none : s.find name = none ↔ name ∉ s.names := by
  rw [← find_isSome]
  cases s.find name <;> simp

/-- Points keep their names. -/
theorem names_updatePoint (hf : ∀ p, (f p).name = p.name) : (s.updatePoint name f).names = s.names :=
  map_updateFirst _ hf _

/-- The point found is the one updated. -/
theorem find_updatePoint (hf : ∀ p, (f p).name = p.name) :
    (s.updatePoint name f).find name = (s.find name).map f :=
  find_updateFirst (fun p => by simp only [hf]) _

theorem find_updatePoint_of_ne {name' : CString} (hne : name' ≠ name) (hf : ∀ p, (f p).name = p.name) :
    (s.updatePoint name' f).find name = s.find name := by
  refine find_updateFirst_other (fun p => by simp only [hf]) (fun p hp => ?_) _
  obtain rfl := beq_iff_eq.mp hp
  exact beq_eq_false_iff_ne.mpr hne

/-- Triggering only counts. -/
theorem trigger_keeps (p : InjectPoint) (draw : BitVec 32) :
    (p.trigger draw).1 = { p with triggerCount := (p.trigger draw).1.triggerCount } := by
  unfold InjectPoint.trigger
  split
  · dsimp only
    split <;> rfl
  · split <;> rfl

/-- A setter that finds its slot. -/
theorem setPoint_some {pid : Int} {action : InjectPoint → InjectPoint} {p : InjectPoint}
    (h : s.find name = some p) : s.setPoint pid name action =
      ({ s.updatePoint name (fun p => { action p with enabled := true }) with
          writerPid := pid, seq := s.seq + 1#32 }, 0) := by
  simp only [setPoint, h]

/-- A setter that does not: it takes a slot, or fails. -/
theorem setPoint_none {pid : Int} {action : InjectPoint → InjectPoint} (h : s.find name = none) :
    s.setPoint pid name action =
      if s.points.length < maxInjectPoints then
        ({ s with
            points := s.points ++
              [{ action (.blank (name.strncpy (injectNameMaxLen - 1))) with enabled := true }]
            writerPid := pid
            seq := s.seq + 1#32 }, 0)
      else (s, -1) := by
  simp only [setPoint, h]

/-- What a setter puts into its slot: the name and the counters stay as they are. -/
structure FillsSlot (action : InjectPoint → InjectPoint) : Prop where
  name : ∀ p, (action p).name = p.name
  limit : ∀ p, (action p).triggerLimit = p.triggerLimit
  count : ∀ p, (action p).triggerCount = p.triggerCount
  recount : ∀ p n, action { p with triggerCount := n } = { action p with triggerCount := n }

/-- The three setters. -/
theorem call_sets {c : InjectCall} (h : c.sets = some name) :
    ∃ action : InjectPoint → InjectPoint, FillsSlot action ∧
      (∀ (s : InjectRegistry) pid,
        s.call pid c = ((s.setPoint pid name action).1, .code (s.setPoint pid name action).2)) ∧
      ∀ e, c = .setReturnError name e → ∀ p, (action p).actionType = .returnError ∧
        (action p).returnValue = e := by
  cases c with
  | setSleep n ms =>
    cases h
    exact ⟨fun p => { p with actionType := .sleep, sleepMs := ms },
      ⟨fun _ => rfl, fun _ => rfl, fun _ => rfl, fun _ _ => rfl⟩, fun _ _ => rfl,
      fun e he => by cases he⟩
  | setReturnError n e =>
    cases h
    refine ⟨fun p => { p with actionType := .returnError, returnValue := e },
      ⟨fun _ => rfl, fun _ => rfl, fun _ => rfl, fun _ _ => rfl⟩, fun _ _ => rfl, ?_⟩
    intro e' he p
    cases he
    exact ⟨rfl, rfl⟩
  | setPrint n message =>
    cases h
    exact ⟨fun p => { p with
      actionType := .print, message := message.strncpy (injectActionMaxLen - 1) },
      ⟨fun _ => rfl, fun _ => rfl, fun _ => rfl, fun _ _ => rfl⟩, fun _ _ => rfl,
      fun e he => by cases he⟩
  | _ => cases h

/-- What a call does to the names: nothing, or a setter takes another slot. -/
theorem names_call (pid : Int) (c : InjectCall) :
    (s.call pid c).1.names = s.names ∨
      ∃ name, c.sets = some name ∧ name ∉ s.names ∧ s.points.length < maxInjectPoints ∧
        (s.call pid c).1.names = s.names ++ [name.strncpy (injectNameMaxLen - 1)] := by
  have hset : ∀ name, c.sets = some name → (s.call pid c).1.names = s.names ∨
      ∃ name, c.sets = some name ∧ name ∉ s.names ∧ s.points.length < maxInjectPoints ∧
        (s.call pid c).1.names = s.names ++ [name.strncpy (injectNameMaxLen - 1)] := by
    intro name hc
    obtain ⟨action, hfill, hcall, -⟩ := call_sets hc
    rw [hcall s pid]
    cases hfind : s.find name with
    | some p =>
      left
      rw [setPoint_some hfind]
      exact names_updatePoint (f := fun p => { action p with enabled := true }) hfill.name
    | none =>
      rw [setPoint_none hfind]
      split
      · rename_i hroom
        refine .inr ⟨name, hc, find_eq_none.mp hfind, hroom, ?_⟩
        simp only [names, List.map_append, List.map_cons, List.map_nil, hfill.name]
        rfl
      · exact .inl rfl
  cases c with
  | setSleep name ms => exact hset name rfl
  | setReturnError name e => exact hset name rfl
  | setPrint name message => exact hset name rfl
  | setFrequency name n =>
    left
    show (s.setFrequency name n).1.names = s.names
    unfold setFrequency
    split
    · rfl
    · exact names_updatePoint fun p => by split <;> rfl
  | clear name => exact .inl (names_updatePoint fun p => rfl)
  | clearAll =>
    left
    show (s.points.map _).map InjectPoint.name = _
    rw [List.map_map]
    rfl
  | execute name draw now =>
    left
    show (s.execute name draw now).1.names = s.names
    have hupdate : (s.updatePoint name fun p => (p.trigger draw).1).names = s.names :=
      names_updatePoint fun p => by rw [trigger_keeps]
    unfold execute
    split
    · rfl
    · split
      · dsimp only
        split <;> exact hupdate
      · rfl

end InjectRegistry

/-! ## The table keyed by name

Where names are short, setting and finding go by the same name. -/

/-- Only names of fewer than 64 characters are set. -/
def ShortNames (_ : InjectRegistry) (a : Int × InjectCall) : Prop :=
  ∀ name, a.2.sets = some name → name.bytes.length < injectNameMaxLen

/-- The point of `name` returns the error `e` when it triggers. -/
def InjectRegistry.Armed (s : InjectRegistry) (name : CString) (e : Int) : Prop :=
  ∃ p, s.find name = some p ∧ p.enabled = true ∧ p.actionType = .returnError ∧ p.returnValue = e

/-- The point of `name` has no frequency and no count limit. -/
def InjectRegistry.Unlimited (s : InjectRegistry) (name : CString) : Prop :=
  ∀ p, s.find name = some p → p.triggerLimit = 0#32 ∧
    ¬ (p.frequencyPercent > 0#32 ∧ p.frequencyPercent < 100#32)

/-- The runs on from `s`. -/
def InjectRegistry.onward (s : InjectRegistry) : System InjectRegistry (Int × InjectCall) :=
  .ofFun (· = s) fun s a => some (s.call a.1 a.2).1

/-- What a table keyed by name owes, now and along every run `ok` allows. -/
structure InjectRegistry.Keyed (ok : InjectRegistry → Int × InjectCall → Prop) (s : InjectRegistry) :
    Prop where
  /-- No two slots have the same name. -/
  distinct : s.names.Nodup
  /-- A name that is set stays in the table. -/
  kept : ∀ pid c name, ok s (pid, c) → c.sets = some name → (s.call pid c).2 = .code 0 →
    ∀ s', (s.call pid c).1.onward.Reach ok s' → name ∈ s'.names
  /-- A name in the table is set in place. -/
  reuse : ∀ pid c name, ok s (pid, c) → c.sets = some name → name ∈ s.names →
    (s.call pid c).2 = .code 0 ∧ (s.call pid c).1.names = s.names
  /-- A setter fails only if 32 names are in the table, and not its own. -/
  full : ∀ pid c name, ok s (pid, c) → c.sets = some name → (s.call pid c).2 ≠ .code 0 →
    s.names.length = maxInjectPoints ∧ name ∉ s.names
  /-- An error that is set is returned until the name is cleared or set again. -/
  error : ∀ pid name e, ok s (pid, .setReturnError name e) →
    (s.setReturnError pid name e).2 = 0 → ∀ s',
      (s.setReturnError pid name e).1.onward.Reach
        (fun s a => ok s a ∧ a.2.sets ≠ some name ∧ a.2.clears name = false) s' →
      s'.Unlimited name → ∀ draw now,
        (s'.execute name draw now).2.ret = 1 ∧ (s'.execute name draw now).2.outReturnValue = some e

namespace InjectRegistry

variable {s : InjectRegistry} {name : CString}

/-- A short name is entered as it is. -/
theorem names_set {pid : Int} {c : InjectCall} (hc : c.sets = some name)
    (hshort : name.bytes.length < injectNameMaxLen) (hok : (s.call pid c).2 = .code 0) :
    name ∈ (s.call pid c).1.names := by
  obtain ⟨action, hfill, hcall, -⟩ := call_sets hc
  rw [hcall s pid] at hok ⊢
  cases hfind : s.find name with
  | some p =>
    rw [setPoint_some hfind]
    have hkeep : (s.updatePoint name fun p => { action p with enabled := true }).names = s.names :=
      names_updatePoint hfill.name
    show name ∈ (s.updatePoint name fun p => { action p with enabled := true }).names
    rw [hkeep, ← find_isSome, hfind]
    rfl
  | none =>
    rw [setPoint_none hfind] at hok ⊢
    by_cases hroom : s.points.length < maxInjectPoints
    · rw [if_pos hroom]
      refine List.mem_map.mpr ⟨_, List.mem_append_right _ (List.mem_singleton_self _), ?_⟩
      show (action _).name = name
      rw [hfill.name]
      exact CString.strncpy_of_le (Nat.le_pred_of_lt hshort)
    · rw [if_neg hroom] at hok
      cases hok

/-- The invariant: the names are distinct, and there is room for as many. -/
structure Table (s : InjectRegistry) : Prop where
  distinct : s.names.Nodup
  room : s.names.length ≤ maxInjectPoints

/-- One call keeps the table: names apart, and no more than there is room for. -/
theorem Table.call {a : Int × InjectCall} (h : s.Table) (hok : ShortNames s a) :
    (s.call a.1 a.2).1.Table := by
  rcases names_call (s := s) a.1 a.2 with hsame | ⟨name, hc, hnew, hroom, heq⟩
  · exact ⟨by rw [hsame]; exact h.distinct, by rw [hsame]; exact h.room⟩
  · have hfull : name.strncpy (injectNameMaxLen - 1) = name :=
      CString.strncpy_of_le (Nat.le_pred_of_lt (hok name hc))
    rw [hfull] at heq
    refine ⟨?_, ?_⟩
    · rw [heq]
      refine List.nodup_append.mpr ⟨h.distinct, List.nodup_singleton _, ?_⟩
      intro x hx y hy
      obtain rfl := List.mem_singleton.mp hy
      rintro rfl
      exact hnew hx
    · rw [heq, List.length_append, List.length_singleton]
      have hlen : s.names.length = s.points.length := List.length_map ..
      omega

/-- In every run with short names the table is one. -/
theorem table_reach (h : injectSystem.Reach ShortNames s) : s.Table := by
  refine h.invariant ?_ ?_
  · rintro s rfl
    exact ⟨List.nodup_nil, Nat.zero_le _⟩
  · rintro s a s' - hI ha hs
    obtain rfl := Option.some.inj hs
    exact hI.call ha

/-- No call takes a name out of the table. -/
theorem names_kept {ok : InjectRegistry → Int × InjectCall → Prop} {s' : InjectRegistry}
    (h : s.onward.Reach ok s') (hname : name ∈ s.names) : name ∈ s'.names := by
  refine h.invariant (I := fun s' => name ∈ s'.names) ?_ ?_
  · rintro s' rfl
    exact hname
  · rintro s₁ a s₂ - hI - hs
    obtain rfl := Option.some.inj hs
    rcases names_call (s := s₁) a.1 a.2 with hsame | ⟨_, -, -, -, heq⟩
    · rw [hsame]
      exact hI
    · rw [heq]
      exact List.mem_append_left _ hI

/-- A call that neither sets nor clears the name leaves its point armed. -/
theorem Armed.call {a : Int × InjectCall} {e : Int} (h : s.Armed name e)
    (hset : a.2.sets ≠ some name) (hclear : a.2.clears name = false) : (s.call a.1 a.2).1.Armed name e := by
  obtain ⟨p, hp, henabled, haction, hvalue⟩ := h
  have hother : (s.call a.1 a.2).1.find name = s.find name → (s.call a.1 a.2).1.Armed name e :=
    fun hsame => ⟨p, by rw [hsame, hp], henabled, haction, hvalue⟩
  -- a setter writes to the point of another name, or makes one
  have hsetter : ∀ name', a.2.sets = some name' → (s.call a.1 a.2).1.Armed name e := by
    intro name' hc
    have hne : name' ≠ name := by
      rintro rfl
      exact hset hc
    obtain ⟨action, hfill, hcall, -⟩ := call_sets hc
    refine hother ?_
    rw [hcall s a.1]
    cases hfind : s.find name' with
    | some p' =>
      rw [setPoint_some hfind]
      exact find_updatePoint_of_ne (f := fun p => { action p with enabled := true }) hne hfill.name
    | none =>
      rw [setPoint_none hfind]
      split
      · show (s.points ++ _).find? _ = _
        rw [List.find?_append, show s.points.find? (fun p => p.name == name) = some p from hp, hp]
        rfl
      · rfl
  obtain ⟨pid, c⟩ := a
  cases c with
  | setSleep n ms => exact hsetter n rfl
  | setReturnError n e' => exact hsetter n rfl
  | setPrint n message => exact hsetter n rfl
  | setFrequency n k =>
    show (s.setFrequency n k).1.Armed name e
    unfold setFrequency
    split
    · exact ⟨p, hp, henabled, haction, hvalue⟩
    · by_cases hn : n = name
      · subst hn
        refine ⟨_, (find_updatePoint fun p => by split <;> rfl).trans (by rw [hp]; rfl), ?_⟩
        dsimp only
        split <;> exact ⟨henabled, haction, hvalue⟩
      · refine ⟨p, (find_updatePoint_of_ne hn fun p => by split <;> rfl).trans hp, henabled, haction, hvalue⟩
  | clear n =>
    have hne : n ≠ name := beq_eq_false_iff_ne.mp hclear
    have hkeep := find_updatePoint_of_ne (s := s) (f := fun p => { p with enabled := false }) hne
      fun p => rfl
    exact ⟨p, hkeep.trans hp, henabled, haction, hvalue⟩
  | clearAll => cases hclear
  -- an execution counts, and leaves the action as it is
  | execute n draw now =>
    have hupdated : (s.updatePoint n fun p => (p.trigger draw).1).Armed name e := by
      by_cases hn : n = name
      · subst hn
        refine ⟨_, (find_updatePoint fun p => by rw [trigger_keeps]).trans (by rw [hp]; rfl), ?_⟩
        dsimp only
        rw [trigger_keeps]
        exact ⟨henabled, haction, hvalue⟩
      · exact ⟨p, (find_updatePoint_of_ne hn fun p => by rw [trigger_keeps]).trans hp, henabled, haction,
          hvalue⟩
    show (s.execute n draw now).1.Armed name e
    unfold execute
    split
    · exact ⟨p, hp, henabled, haction, hvalue⟩
    · split
      · dsimp only
        split <;> exact hupdated
      · exact ⟨p, hp, henabled, haction, hvalue⟩

/-- Setting an error arms the point. -/
theorem armed_set {pid : Int} {e : Int} (hshort : name.bytes.length < injectNameMaxLen)
    (hok : (s.setReturnError pid name e).2 = 0) : (s.setReturnError pid name e).1.Armed name e := by
  unfold setReturnError at hok ⊢
  cases hfind : s.find name with
  | some p =>
    rw [setPoint_some hfind]
    have hfound : (s.updatePoint name fun p =>
        { p with actionType := .returnError, returnValue := e, enabled := true }).find name
          = (s.find name).map _ := find_updatePoint fun p => rfl
    exact ⟨_, hfound.trans (by rw [hfind]; rfl), rfl, rfl, rfl⟩
  | none =>
    rw [setPoint_none hfind] at hok ⊢
    by_cases hroom : s.points.length < maxInjectPoints
    · rw [if_pos hroom]
      refine ⟨{ InjectPoint.blank (name.strncpy (injectNameMaxLen - 1)) with
        actionType := .returnError, returnValue := e, enabled := true }, ?_, rfl, rfl, rfl⟩
      show (s.points ++ [_]).find? _ = some _
      rw [List.find?_append, show s.points.find? (fun p => p.name == name) = none from hfind,
        Option.none_or, List.find?_singleton, if_pos]
      exact beq_iff_eq.mpr (CString.strncpy_of_le (Nat.le_pred_of_lt hshort))
    · rw [if_neg hroom] at hok
      cases hok

/-- An armed point without limit returns its error. -/
theorem Armed.execute {e : Int} (h : s.Armed name e) (hun : s.Unlimited name) (draw : BitVec 32)
    (now : BitVec 64) : (s.execute name draw now).2.ret = 1 ∧
      (s.execute name draw now).2.outReturnValue = some e := by
  obtain ⟨p, hp, henabled, haction, hvalue⟩ := h
  obtain ⟨hlimit, hfreq⟩ := hun p hp
  have htrigger : (p.trigger draw).2 = true := by
    unfold InjectPoint.trigger
    rw [hlimit, if_neg (by decide), if_neg hfreq]
  simp only [InjectRegistry.execute, hp, henabled, htrigger, if_true, perform, haction, hvalue, and_self]

end InjectRegistry

/-- **Keyed by name.**  In every run that sets short names only, the table is keyed by name. -/
theorem inject_keyed {s : InjectRegistry} (h : injectSystem.Reach ShortNames s) : s.Keyed ShortNames := by
  have htable := InjectRegistry.table_reach h
  refine ⟨htable.distinct, ?_, ?_, ?_, ?_⟩
  · intro pid c name hok hc hret s' h'
    exact InjectRegistry.names_kept h' (InjectRegistry.names_set hc (hok name hc) hret)
  · intro pid c name hok hc hname
    obtain ⟨action, hfill, hcall, -⟩ := InjectRegistry.call_sets hc
    obtain ⟨p, hp⟩ := Option.isSome_iff_exists.mp (InjectRegistry.find_isSome.mpr hname)
    rw [hcall s pid, InjectRegistry.setPoint_some hp]
    exact ⟨rfl, InjectRegistry.names_updatePoint (f := fun p => { action p with enabled := true }) hfill.name⟩
  · intro pid c name hok hc hret
    obtain ⟨action, hfill, hcall, -⟩ := InjectRegistry.call_sets hc
    cases hfind : s.find name with
    | some p =>
      rw [hcall s pid, InjectRegistry.setPoint_some hfind] at hret
      exact absurd rfl hret
    | none =>
      rw [hcall s pid, InjectRegistry.setPoint_none hfind] at hret
      refine ⟨?_, InjectRegistry.find_eq_none.mp hfind⟩
      have hlen : s.names.length = s.points.length := List.length_map ..
      have hroom := htable.room
      by_cases hlt : s.points.length < maxInjectPoints
      · rw [if_pos hlt] at hret
        exact absurd rfl hret
      · omega
  · intro pid name e hok hret s' h' hun draw now
    refine InjectRegistry.Armed.execute ?_ hun draw now
    refine h'.invariant (I := fun s' => s'.Armed name e) ?_ ?_
    · rintro s' rfl
      exact InjectRegistry.armed_set (hok name rfl) hret
    · rintro s₁ a s₂ - hI ⟨-, hset, hclear⟩ hs
      obtain rfl := Option.some.inj hs
      exact hI.call hset hclear

/-- `"a"`, `"b"`, and a name of 64 characters. -/
def nameA : CString := ⟨[97], by decide⟩
def nameB : CString := ⟨[98], by decide⟩
def longName : CString := ⟨List.replicate 64 110, by decide⟩

def shortNamesb (_ : InjectRegistry) (a : Int × InjectCall) : Bool :=
  match a.2.sets with
  | some name => decide (name.bytes.length < injectNameMaxLen)
  | none => true

/-- The test that a name is short. -/
theorem shortNames_of_b (s : InjectRegistry) (a : Int × InjectCall) (h : shortNamesb s a = true) :
    ShortNames s a := by
  intro name hname
  simp only [shortNamesb, hname, decide_eq_true_eq] at h
  exact h

/-- Two points, each found by its own name. -/
theorem inject_keyed_two : ∃ s : InjectRegistry, s.Keyed ShortNames ∧ s.names = [nameA, nameB] := by
  have hrun : (exec shortNamesb (fun s a => some (InjectRegistry.call s a.1 a.2).1) .created
      [(1, .setReturnError nameA 5), (1, .setSleep nameB 3#32), (2, .execute nameA 0#32 0#64),
        (2, .setSleep nameA 7#32), (1, .clearAll)]).any (fun s => s.names == [nameA, nameB]) = true := by
    decide +kernel
  obtain ⟨s, hr, hP⟩ := System.Reach.of_exec (· = InjectRegistry.created) _ shortNames_of_b rfl _ _ hrun
  exact ⟨s, inject_keyed hr, beq_iff_eq.mp hP⟩

/-- A name of 64 characters that is set twice takes two slots. -/
theorem long_name_twice : ¬ ∀ s, injectSystem.Reach (fun _ _ => True) s → s.Keyed fun _ _ => True := by
  intro hall
  have hrun : (exec (fun _ _ => true) (fun s a => some (InjectRegistry.call s a.1 a.2).1) .created
      [(1, .setReturnError longName 5), (1, .setReturnError longName 5)]).any
      (fun s => decide (¬ s.names.Nodup)) = true := by
    decide +kernel
  have hok : ∀ (_ : InjectRegistry) (_ : Int × InjectCall), true = true → True := fun _ _ _ => trivial
  obtain ⟨s, hr, hP⟩ := System.Reach.of_exec (· = InjectRegistry.created) _ hok rfl _ _ hrun
  exact of_decide_eq_true hP (hall s hr).distinct

end OsTransport
