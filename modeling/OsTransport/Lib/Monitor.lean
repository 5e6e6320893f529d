/-
  Threads that work under locks, and sleep on the condition variable of a lock.

  A thread is at a point `p : P` of its code.  What it does next (`Code.next`) is a step of its own
  (`hop`), or a PROGRAM under one lock: edits of the data the lock protects, signals, and at the end
  either the unlocking (`ret`) or the unlocking and going to sleep in one step (`wait`, as
  `pthread_cond_wait` does).  Every edit, signal and test is a step; between any two of them every
  other thread may run.  A thread asleep may wake for no reason, and may give up (`expire`).
  One flag is outside all locks: it is raised once and may be tested under any lock.

  What holds, for any locks, any threads and any code:

  * `refines`        — as long as the flag is down, what the locks publish is what whole programs
                       make of it, one after the other: the system refines `atomic`, where each
                       program is one step;
  * `no_lost_wakeup` — the sleeper of a well-behaved lock (`Watched`) never sleeps over data
                       that is ready for it, unless its signal is still to come; `no_lost_flag`
                       says the same of the raised flag (`Heeded`);
  * `unlocks`        — whoever holds a lock can go on and give it back;
  * `wakes`          — and wakes the sleeper on the way, if the data is ready.

  The invariants are `Sound`, `Vigilant` and `Heard`.

  How they are proved:

  1. `Stepped` is the inversion of `step`: one constructor for each thing that can happen to a
     thread, waking for no reason and giving up included.  Everything after it is by cases on it;
  2. `Sound` says where the holder of each lock is and that what is published is what its program
     has made of it so far.  A program that ends publishes at once (`whole_step`), so the view of a
     state moves by one whole program or not at all, which is `refines`;
  3. `Vigilant` says of the sleeper that its data is not ready, or somebody owes it a signal: the
     thread inside a program that has made the data ready and has not signalled (`Spot.Owing`).
     `Watched` is the discipline that keeps it: whoever makes the data ready signals before it
     unlocks, and the sleeper tests before it sleeps;
  4. `Heard` is the same for the flag, where the signal may come from any thread that has seen it
     raised;
  5. `unlocks` and `wakes` are by induction on the program of the holder, which gets shorter with
     each act; `placed_reach` keeps what a client knows of the points of its threads.
-/
import OsTransport.Lib.Transition
import Mathlib.Logic.Function.Basic

namespace Monitor

open Transition

universe u v w

/-! ## Programs

A program is what a thread does between a lock and its unlock.  `run` does all of it at once;
`Alert`, `Careful` and the rest say, about its syntax, what it does to the data on which a sleeper
depends. -/

/-- What a thread does while it holds a lock.  `edit f k` edits the data by `f` and goes on as what
    it has read there tells it; the other constructors edit nothing. -/
inductive Prog (σ : Type u) (P : Type v) : Type (max u v)
  | ret (p : P)
  | wait (p : P)
  | edit (f : σ → σ) (k : σ → Prog σ P)
  | signal (k : Prog σ P)
  | test (k : Bool → Prog σ P)

namespace Prog

variable {σ : Type u} {P : Type v}

/-- The program as one step, with the flag down or raised. -/
def run (flag : Bool) : Prog σ P → σ → σ × P
  | ret p, d => (d, p)
  | wait p, d => (d, p)
  | edit f k, d => (k d).run flag (f d)
  | signal k, d => k.run flag d
  | test k, d => (k flag).run flag d

/-- The program ends by going to sleep. -/
def sleeps (flag : Bool) : Prog σ P → σ → Bool
  | ret _, _ => false
  | wait _, _ => true
  | edit f k, d => (k d).sleeps flag (f d)
  | signal k, d => k.sleeps flag d
  | test k, d => (k flag).sleeps flag d

/-- Whatever the tests show, the program signals. -/
def Signals : Prog σ P → σ → Prop
  | ret _, _ => False
  | wait _, _ => False
  | edit f k, d => (k d).Signals (f d)
  | signal _, _ => True
  | test k, d => ∀ b, (k b).Signals d

/-- Where the program makes the data ready, it signals afterwards. -/
def Alert (ready : σ → Bool) : Prog σ P → Prop
  | ret _ => True
  | wait _ => True
  | edit f k => ∀ d, (ready d = false → ready (f d) = true → (k d).Signals (f d)) ∧
      (k d).Alert ready
  | signal k => k.Alert ready
  | test k => ∀ b, (k b).Alert ready

/-- The program sleeps over no ready data. -/
def Careful (ready : σ → Bool) : Prog σ P → σ → Prop
  | ret _, _ => True
  | wait _, d => ready d = false
  | edit f k, d => (k d).Careful ready (f d)
  | signal k, d => k.Careful ready d
  | test k, d => ∀ b, (k b).Careful ready d

/-- The program goes to sleep although every test to come shows the flag raised. -/
def Blind : Prog σ P → σ → Prop
  | ret _, _ => False
  | wait _, _ => True
  | edit f k, d => (k d).Blind (f d)
  | signal k, d => k.Blind d
  | test k, d => (k true).Blind d

/-- The program does not sleep. -/
def Waitless : Prog σ P → Prop
  | ret _ => True
  | wait _ => False
  | edit _ k => ∀ d, (k d).Waitless
  | signal k => k.Waitless
  | test k => ∀ b, (k b).Waitless

/-- The program does not sleep, and where it ends `Q` holds. -/
def Leaves (Q : P → Prop) : Prog σ P → Prop
  | ret p => Q p
  | wait _ => False
  | edit _ k => ∀ d, (k d).Leaves Q
  | signal k => k.Leaves Q
  | test k => ∀ b, (k b).Leaves Q

/-- Wherever the program ends, `Q` holds. -/
def Ends (Q : P → Prop) : Prog σ P → Prop
  | ret p => Q p
  | wait p => Q p
  | edit _ k => ∀ d, (k d).Ends Q
  | signal k => k.Ends Q
  | test k => ∀ b, (k b).Ends Q

/-- Who does not sleep does not sleep over ready data. -/
theorem Waitless.careful {ready : σ → Bool} {prog : Prog σ P} (h : prog.Waitless) (d : σ) :
    prog.Careful ready d := by
  induction prog generalizing d with
  | ret p => trivial
  | wait p => exact h.elim
  | edit f k ih => exact ih d (h d) (f d)
  | signal k ih => exact ih h d
  | test k ih => exact fun b => ih b (h b) d

/-- An edit that does not make the data ready needs no signal. -/
theorem Alert.quiet {ready : σ → Bool} {f : σ → σ} {k : σ → Prog σ P}
    (hf : ∀ d, ready (f d) = ready d) (hk : ∀ d, (k d).Alert ready) : (edit f k).Alert ready := by
  refine fun d => ⟨fun h₀ h₁ => ?_, hk d⟩
  rw [hf, h₀] at h₁
  cases h₁

end Prog

/-! ## The system

A state has the data of every lock, its holder, and where every thread is: at a point of its code,
inside a program, or asleep.  `committed` is what the data was when each lock was last given back.
-/

section System

variable {ι : Type*} {σ : ι → Type u} {τ : Type*} {P : Type v} {A : Type w}

/-- What a thread does next. -/
inductive Next (σ : ι → Type u) (P : Type v)
  | hop (p : P)
  /-- Raise the flag. -/
  | raise (p : P)
  | lock (i : ι) (prog : Prog (σ i) P)

/-- The code of all threads.  `A` is what a step takes from outside. -/
structure Code (σ : ι → Type u) (τ : Type*) (P : Type v) (A : Type w) where
  next : τ → P → A → Option (Next σ P)
  /-- The one thread that sleeps on the condition variable of a lock. -/
  server : ι → τ
  /-- Where a sleep goes on that ends without a signal, as after a deadline. -/
  expire : P → A → Option P
  waitless : ∀ {t p a i prog}, next t p a = some (.lock i prog) → t ≠ server i → prog.Waitless

/-- Where a thread is. -/
inductive Spot (σ : ι → Type u) (P : Type v) (A : Type w)
  | free (p : P)
  /-- In the program `whole`, which it has begun at `p` with the input `a`; `rest` is left. -/
  | inside (p : P) (a : A) (i : ι) (whole rest : Prog (σ i) P)
  | asleep (i : ι) (p : P)

/-- The point of the code a thread is at, or was at before the program it is in. -/
def Spot.pc : Spot σ P A → P
  | .free p => p
  | .inside p _ _ _ _ => p
  | .asleep _ p => p

structure State (σ : ι → Type u) (τ : Type*) (P : Type v) (A : Type w) where
  data : ∀ i, σ i
  holder : ι → Option τ
  thread : τ → Spot σ P A
  flag : Bool
  /-- The data of each lock when it was last given back; no step reads it. -/
  committed : ∀ i, σ i

inductive Action (τ : Type*) (A : Type w)
  /-- Thread `t` goes on to what is next: a hop, or the locking. -/
  | go (t : τ) (a : A)
  /-- The next step of the program thread `t` is in. -/
  | act (t : τ)
  /-- A sleep ends for no reason. -/
  | rouse (t : τ)
  | expire (t : τ) (a : A)

/-- The thread that takes the step. -/
def Action.thread : Action τ A → τ
  | .go t _ => t
  | .act t => t
  | .rouse t => t
  | .expire t _ => t

variable [DecidableEq ι] [DecidableEq τ]

/-- A signal on lock `i`. -/
def Spot.woken (i : ι) : Spot σ P A → Spot σ P A
  | .asleep j p => if j = i then .free p else .asleep j p
  | spot => spot

namespace State

def setThread (s : State σ τ P A) (t : τ) (spot : Spot σ P A) : State σ τ P A :=
  { s with thread := Function.update s.thread t spot }

omit [DecidableEq ι] in
@[simp] theorem setThread_self (s : State σ τ P A) (t : τ) (spot : Spot σ P A) :
    (s.setThread t spot).thread t = spot := Function.update_self ..

omit [DecidableEq ι] in
theorem setThread_of_ne (s : State σ τ P A) {t u : τ} (h : u ≠ t) (spot : Spot σ P A) :
    (s.setThread t spot).thread u = s.thread u := Function.update_of_ne h ..

/-- Lock `i` is given back. -/
def release (s : State σ τ P A) (i : ι) : State σ τ P A :=
  { s with
    holder := Function.update s.holder i none
    committed := Function.update s.committed i (s.data i) }

def go (code : Code σ τ P A) (s : State σ τ P A) (t : τ) (a : A) : Option (State σ τ P A) :=
  match s.thread t with
  | .free p =>
    match code.next t p a with
    | some (.hop q) => some (s.setThread t (.free q))
    | some (.raise q) => some { s.setThread t (.free q) with flag := true }
    | some (.lock i prog) =>
      if s.holder i = none then
        some { s.setThread t (.inside p a i prog prog) with
          holder := Function.update s.holder i (some t) }
      else none
    | none => none
  | _ => none

def act (code : Code σ τ P A) (s : State σ τ P A) (t : τ) : Option (State σ τ P A) :=
  match s.thread t with
  | .inside _ _ i _ (.ret q) => some ((s.release i).setThread t (.free q))
  | .inside _ _ i _ (.wait q) => some ((s.release i).setThread t (.asleep i q))
  | .inside p a i whole (.edit f k) =>
    some { s.setThread t (.inside p a i whole (k (s.data i))) with
      data := Function.update s.data i (f (s.data i)) }
  | .inside p a i whole (.signal k) =>
    let s' := s.setThread t (.inside p a i whole k)
    some (s'.setThread (code.server i) ((s'.thread (code.server i)).woken i))
  | .inside p a i whole (.test k) => some (s.setThread t (.inside p a i whole (k s.flag)))
  | _ => none

def step (code : Code σ τ P A) (s : State σ τ P A) : Action τ A → Option (State σ τ P A)
  | .go t a => s.go code t a
  | .act t => s.act code t
  | .rouse t =>
    match s.thread t with
    | .asleep _ p => some (s.setThread t (.free p))
    | _ => none
  | .expire t a =>
    match s.thread t with
    | .asleep _ p => (code.expire p a).map fun q => s.setThread t (.free q)
    | _ => none

/-- Nobody holds a lock, and every thread is where `pc` puts it. -/
def start (data : ∀ i, σ i) (pc : τ → P) : State σ τ P A :=
  ⟨data, fun _ => none, fun t => .free (pc t), false, data⟩

end State

/-- All runs of the code. -/
def system (code : Code σ τ P A) (data : ∀ i, σ i) (pc : τ → P) :
    System (State σ τ P A) (Action τ A) :=
  .ofFun (· = State.start data pc) (State.step code)

/-! ## What a step does

The step function, turned into rules: one for each thing a thread may do next. -/

section Steps

variable {code : Code σ τ P A} {s s' : State σ τ P A}

/-- The steps of a monitor, each with what it reads and what it leaves. -/
inductive Stepped (code : Code σ τ P A) (s : State σ τ P A) : Action τ A → State σ τ P A → Prop
  | hop {t a p q} : s.thread t = .free p → code.next t p a = some (.hop q) →
      Stepped code s (.go t a) (s.setThread t (.free q))
  | raise {t a p q} : s.thread t = .free p → code.next t p a = some (.raise q) →
      Stepped code s (.go t a) { s.setThread t (.free q) with flag := true }
  | lock {t a p i prog} : s.thread t = .free p → code.next t p a = some (.lock i prog) →
      s.holder i = none →
      Stepped code s (.go t a)
        { s.setThread t (.inside p a i prog prog) with
          holder := Function.update s.holder i (some t) }
  | ret {t p a i whole q} : s.thread t = .inside p a i whole (.ret q) →
      Stepped code s (.act t) ((s.release i).setThread t (.free q))
  | wait {t p a i whole q} : s.thread t = .inside p a i whole (.wait q) →
      Stepped code s (.act t) ((s.release i).setThread t (.asleep i q))
  | edit {t p a i whole f k} : s.thread t = .inside p a i whole (.edit f k) →
      Stepped code s (.act t)
        { s.setThread t (.inside p a i whole (k (s.data i))) with
          data := Function.update s.data i (f (s.data i)) }
  | signal {t p a i whole k} : s.thread t = .inside p a i whole (.signal k) →
      Stepped code s (.act t)
        ((s.setThread t (.inside p a i whole k)).setThread (code.server i)
          (((s.setThread t (.inside p a i whole k)).thread (code.server i)).woken i))
  | test {t p a i whole k} : s.thread t = .inside p a i whole (.test k) →
      Stepped code s (.act t) (s.setThread t (.inside p a i whole (k s.flag)))
  | rouse {t i p} : s.thread t = .asleep i p →
      Stepped code s (.rouse t) (s.setThread t (.free p))
  | expire {t a i p q} : s.thread t = .asleep i p → code.expire p a = some q →
      Stepped code s (.expire t a) (s.setThread t (.free q))

/-- Every step is one of these. -/
theorem stepped {b : Action τ A} (h : s.step code b = some s') : Stepped code s b s' := by
  cases b with
  | go t a =>
    simp only [State.step, State.go] at h
    split at h
    · rename_i p hp
      split at h
      · cases h; exact .hop hp ‹_›
      · cases h; exact .raise hp ‹_›
      · rename_i i prog hnext
        split at h
        · cases h; exact .lock hp hnext ‹_›
        · cases h
      · cases h
    · cases h
  | act t =>
    simp only [State.step, State.act] at h
    split at h
    · cases h; exact .ret ‹_›
    · cases h; exact .wait ‹_›
    · cases h; exact .edit ‹_›
    · cases h; exact .signal ‹_›
    · cases h; exact .test ‹_›
    · cases h
  | rouse t =>
    simp only [State.step] at h
    split at h
    · cases h; exact .rouse ‹_›
    · cases h
  | expire t a =>
    simp only [State.step] at h
    split at h
    · rename_i i p hp
      obtain ⟨q, hq, rfl⟩ := Option.map_eq_some_iff.mp h
      exact .expire hp hq
    · cases h

/-- A signal moves nobody who is inside a section. -/
theorem Spot.woken_eq_inside {i j : ι} {spot : Spot σ P A} {p : P} {a : A}
    {whole rest : Prog (σ j) P} :
    spot.woken i = .inside p a j whole rest ↔ spot = .inside p a j whole rest := by
  cases spot with
  | free q => exact Iff.rfl
  | inside q b l w r => exact Iff.rfl
  | asleep l q =>
    simp only [Spot.woken]
    split <;> simp

/-! ## Locks hold: programs are steps

The invariant that makes a lock a lock.  Only the holder is inside, and what it has made of the data
is what the part of its program done so far makes of the data as it was. -/

/-- Who is in a program holds its lock, and the program, as far as it has come, has made of the
    committed data what the data is. -/
structure Sound (code : Code σ τ P A) (s : State σ τ P A) : Prop where
  inside : ∀ {t p a i whole rest}, s.thread t = .inside p a i whole rest →
    s.holder i = some t ∧ code.next t p a = some (.lock i whole) ∧
      (s.flag = false → rest.run false (s.data i) = whole.run false (s.committed i))
  held : ∀ {i t}, s.holder i = some t → ∃ p a whole rest, s.thread t = .inside p a i whole rest
  rests : ∀ {i}, s.holder i = none → s.data i = s.committed i

omit [DecidableEq ι] in
/-- A thread outside all programs moves on. -/
theorem Sound.move {t : τ} {spot : Spot σ P A} (h : Sound code s)
    (hold : ∀ p a i whole rest, s.thread t ≠ .inside p a i whole rest)
    (hnew : ∀ p a i whole rest, spot ≠ .inside p a i whole rest) :
    Sound code (s.setThread t spot) where
  inside := by
    intro u p a i whole rest hu
    by_cases hut : u = t
    · subst hut
      rw [State.setThread_self] at hu
      exact (hnew _ _ _ _ _ hu).elim
    · rw [State.setThread_of_ne _ hut] at hu
      exact h.inside hu
  held := by
    intro i u hu
    obtain ⟨p, a, whole, rest, hin⟩ := h.held hu
    have hut : u ≠ t := fun hut => hold p a i whole rest (hut ▸ hin)
    exact ⟨p, a, whole, rest, by rw [State.setThread_of_ne _ hut, hin]⟩
  rests := h.rests

/-- A thread locks. -/
theorem Sound.lock {t : τ} {p : P} {a : A} {i : ι} {prog : Prog (σ i) P} (h : Sound code s)
    (hfree : s.thread t = .free p) (hnext : code.next t p a = some (.lock i prog))
    (hi : s.holder i = none) :
    Sound code { s.setThread t (.inside p a i prog prog) with
      holder := Function.update s.holder i (some t) } where
  inside := by
    intro u q b j whole rest hu
    by_cases hut : u = t
    · subst hut
      simp only [State.setThread_self] at hu
      cases hu
      exact ⟨Function.update_self .., hnext, fun _ => congrArg (prog.run false) (h.rests hi)⟩
    · simp only [State.setThread_of_ne _ hut] at hu
      obtain ⟨hj, hrest⟩ := h.inside hu
      have hji : j ≠ i := by
        rintro rfl
        rw [hi] at hj
        cases hj
      exact ⟨by rw [← hj]; exact Function.update_of_ne hji .., hrest⟩
  held := by
    intro j u hu
    by_cases hji : j = i
    · subst hji
      simp only [Function.update_self, Option.some.injEq] at hu
      subst hu
      exact ⟨p, a, prog, prog, State.setThread_self ..⟩
    · simp only [Function.update_of_ne hji] at hu
      obtain ⟨q, b, whole, rest, hin⟩ := h.held hu
      have hut : u ≠ t := by
        rintro rfl
        rw [hfree] at hin
        cases hin
      exact ⟨q, b, whole, rest, by simp only [State.setThread_of_ne _ hut, hin]⟩
  rests := by
    intro j hj
    by_cases hji : j = i
    · subst hji
      simp only [Function.update_self, reduceCtorEq] at hj
    · simp only [Function.update_of_ne hji] at hj
      exact h.rests hj

/-- A thread unlocks. -/
theorem Sound.unlock {t : τ} {p : P} {a : A} {i : ι} {whole rest : Prog (σ i) P}
    {spot : Spot σ P A} (h : Sound code s) (hin : s.thread t = .inside p a i whole rest)
    (hnew : ∀ p a i whole rest, spot ≠ .inside p a i whole rest) :
    Sound code ((s.release i).setThread t spot) where
  inside := by
    intro u q b j w r hu
    by_cases hut : u = t
    · subst hut
      rw [State.setThread_self] at hu
      exact (hnew _ _ _ _ _ hu).elim
    · rw [State.setThread_of_ne _ hut] at hu
      obtain ⟨hj, hnext, hrun⟩ := h.inside hu
      have hji : j ≠ i := by
        rintro rfl
        rw [(h.inside hin).1, Option.some.injEq] at hj
        exact hut hj.symm
      refine ⟨by rw [← hj]; exact Function.update_of_ne hji .., hnext, fun hf => ?_⟩
      simp only [State.setThread, State.release, Function.update_of_ne hji]
      exact hrun hf
  held := by
    intro j u hu
    have hji : j ≠ i := by
      rintro rfl
      simp only [State.setThread, State.release, Function.update_self, reduceCtorEq] at hu
    simp only [State.setThread, State.release, Function.update_of_ne hji] at hu
    obtain ⟨q, b, w, r, hinu⟩ := h.held hu
    have hut : u ≠ t := by
      rintro rfl
      rw [hin] at hinu
      cases hinu
      exact hji rfl
    exact ⟨q, b, w, r, by rw [State.setThread_of_ne _ hut]; exact hinu⟩
  rests := by
    intro j hj
    by_cases hji : j = i
    · subst hji
      exact (Function.update_self (f := s.committed) ..).symm
    · simp only [State.setThread, State.release, Function.update_of_ne hji] at hj ⊢
      exact h.rests hj

omit [DecidableEq ι] in
/-- A thread goes on in its program. -/
theorem Sound.act {t : τ} {p : P} {a : A} {i : ι} {whole rest rest' : Prog (σ i) P}
    (h : Sound code s) (hin : s.thread t = .inside p a i whole rest)
    (hin' : s'.thread t = .inside p a i whole rest')
    (hothers : ∀ u ≠ t, ∀ q b j (w r : Prog (σ j) P),
      s'.thread u = .inside q b j w r ↔ s.thread u = .inside q b j w r)
    (hholder : s'.holder = s.holder) (hcommitted : s'.committed = s.committed)
    (hflag : s'.flag = s.flag) (hdata : ∀ j ≠ i, s'.data j = s.data j)
    (hrun : s.flag = false → rest'.run false (s'.data i) = rest.run false (s.data i)) :
    Sound code s' where
  inside := by
    intro u q b j w r hu
    rw [hholder, hcommitted, hflag]
    by_cases hut : u = t
    · subst hut
      rw [hin'] at hu
      cases hu
      obtain ⟨hi, hnext, hrest⟩ := h.inside hin
      exact ⟨hi, hnext, fun hf => (hrun hf).trans (hrest hf)⟩
    · have hu := (hothers u hut ..).mp hu
      obtain ⟨hj, hnext, hrest⟩ := h.inside hu
      have hji : j ≠ i := by
        rintro rfl
        rw [(h.inside hin).1, Option.some.injEq] at hj
        exact hut hj.symm
      rw [hdata j hji]
      exact ⟨hj, hnext, hrest⟩
  held := by
    intro j u hu
    rw [hholder] at hu
    obtain ⟨q, b, w, r, hinu⟩ := h.held hu
    by_cases hut : u = t
    · subst hut
      rw [hin] at hinu
      cases hinu
      exact ⟨_, _, _, _, hin'⟩
    · exact ⟨q, b, w, r, (hothers u hut ..).mpr hinu⟩
  rests := by
    intro j hj
    rw [hholder] at hj
    have hji : j ≠ i := by
      rintro rfl
      rw [(h.inside hin).1] at hj
      cases hj
    rw [hdata j hji, hcommitted]
    exact h.rests hj

/-- One step keeps the locks sound. -/
theorem sound_step {b : Action τ A} (h : Sound code s) (hs : s.step code b = some s') :
    Sound code s' := by
  cases stepped hs with
  | hop hp _ => exact h.move (by simp [hp]) (by simp)
  | @raise t a p q hp _ =>
    have hmoved : Sound code (s.setThread t (.free q)) := h.move (by simp [hp]) (by simp)
    exact ⟨fun hu => ⟨(hmoved.inside hu).1, (hmoved.inside hu).2.1, nofun⟩,
      hmoved.held, hmoved.rests⟩
  | lock hp hnext hi => exact h.lock hp hnext hi
  | ret hin => exact h.unlock hin (by simp)
  | wait hin => exact h.unlock hin (by simp)
  | edit hin =>
    refine h.act hin (State.setThread_self ..) ?_ rfl rfl rfl ?_ ?_
    · intro u hut q b j w r
      simp only [State.setThread_of_ne _ hut]
    · exact fun j hji => Function.update_of_ne hji ..
    · intro _
      simp only [Function.update_self]
      rfl
  | @signal t p a i whole k hin =>
    have hself : (s.setThread t (.inside p a i whole k)).thread t = .inside p a i whole k :=
      State.setThread_self ..
    refine h.act hin (?_ : _ = Spot.inside p a i whole k) ?_ rfl rfl rfl (fun _ _ => rfl)
      (fun _ => rfl)
    · by_cases hserver : t = code.server i
      · rw [← hserver, hself]
        rw [State.setThread_self]
        rfl
      · rw [State.setThread_of_ne _ hserver, hself]
    · intro u hut q b j w r
      have hother : (s.setThread t (.inside p a i whole k)).thread u = s.thread u :=
        State.setThread_of_ne _ hut _
      by_cases hserver : u = code.server i
      · rw [← hserver, hother]
        rw [State.setThread_self]
        exact Spot.woken_eq_inside
      · rw [State.setThread_of_ne _ hserver, hother]
  | @test t p a i whole k hin =>
    refine h.act hin (State.setThread_self ..) ?_ rfl rfl rfl (fun _ _ => rfl) ?_
    · intro u hut q b j w r
      simp only [State.setThread_of_ne _ hut]
    · intro hf
      show (k s.flag).run _ _ = _
      rw [hf]
      rfl
  | rouse hp => exact h.move (by simp [hp]) (by simp)
  | expire hp _ => exact h.move (by simp [hp]) (by simp)

variable {data : ∀ i, σ i} {pc : τ → P}

/-- In every run who is inside a section holds its lock, and only he. -/
theorem sound_reach {ok : State σ τ P A → Action τ A → Prop}
    (h : (system code data pc).Reach ok s) : Sound code s := by
  refine h.invariant ?_ ?_
  · rintro s rfl
    exact ⟨fun h => (by cases h), fun h => (by cases h), fun _ => rfl⟩
  · intro s b s' _ hI _ hs
    exact sound_step hI hs

/-! ## Refinement

The atomic system takes each program as one step, at the moment the lock is given back.  The view of
a state forgets who is inside, so steps inside a program are no steps of it. -/

/-- The machine in which a program is one step. -/
structure Atomic (σ : ι → Type u) (τ : Type*) (P : Type v) where
  data : ∀ i, σ i
  pc : τ → P

inductive AtomicAction (τ : Type*) (A : Type w)
  | hop (t : τ) (a : A)
  | whole (t : τ) (a : A)
  | expire (t : τ) (a : A)

def Atomic.step (code : Code σ τ P A) (s : Atomic σ τ P) :
    AtomicAction τ A → Option (Atomic σ τ P)
  | .hop t a =>
    match code.next t (s.pc t) a with
    | some (.hop q) => some { s with pc := Function.update s.pc t q }
    | _ => none
  | .whole t a =>
    match code.next t (s.pc t) a with
    | some (.lock i prog) =>
      let (d, q) := prog.run false (s.data i)
      some ⟨Function.update s.data i d, Function.update s.pc t q⟩
    | _ => none
  | .expire t a => (code.expire (s.pc t) a).map fun q => { s with pc := Function.update s.pc t q }

/-- All runs of the code with its programs as steps. -/
def atomic (code : Code σ τ P A) (data : ∀ i, σ i) (pc : τ → P) :
    System (Atomic σ τ P) (AtomicAction τ A) :=
  .ofFun (· = ⟨data, pc⟩) (Atomic.step code)

/-- The steps of `atomic`, each with what it reads and what it leaves. -/
inductive AtomicStepped (code : Code σ τ P A) (v : Atomic σ τ P) :
    AtomicAction τ A → Atomic σ τ P → Prop
  | hop {t a q} : code.next t (v.pc t) a = some (.hop q) →
      AtomicStepped code v (.hop t a) { v with pc := Function.update v.pc t q }
  | whole {t a i prog} : code.next t (v.pc t) a = some (.lock i prog) →
      AtomicStepped code v (.whole t a) ⟨Function.update v.data i (prog.run false (v.data i)).1,
        Function.update v.pc t (prog.run false (v.data i)).2⟩
  | expire {t a q} : code.expire (v.pc t) a = some q →
      AtomicStepped code v (.expire t a) { v with pc := Function.update v.pc t q }

/-- Every step of the atomic system is one of these. -/
theorem atomic_stepped {v v' : Atomic σ τ P} {b : AtomicAction τ A}
    (h : v.step code b = some v') : AtomicStepped code v b v' := by
  cases b with
  | hop t a =>
    simp only [Atomic.step] at h
    split at h
    · cases h; exact .hop ‹_›
    · cases h
  | whole t a =>
    simp only [Atomic.step] at h
    split at h
    · cases h; exact .whole ‹_›
    · cases h
  | expire t a =>
    obtain ⟨q, hq, rfl⟩ := Option.map_eq_some_iff.mp h
    exact .expire hq

/-- What is seen of a state between programs. -/
def State.view (s : State σ τ P A) : Atomic σ τ P := ⟨s.committed, fun t => (s.thread t).pc⟩

/-- The step of the atomic machine that takes effect with `b`. -/
def State.commits (code : Code σ τ P A) (s : State σ τ P A) : Action τ A → Option (AtomicAction τ A)
  | .go t a =>
    match s.thread t with
    | .free p =>
      match code.next t p a with
      | some (.hop _) => some (.hop t a)
      | _ => none
    | _ => none
  | .act t =>
    match s.thread t with
    | .inside _ a _ _ (.ret _) => some (.whole t a)
    | .inside _ a _ _ (.wait _) => some (.whole t a)
    | _ => none
  | .rouse _ => none
  | .expire t a => some (.expire t a)

omit [DecidableEq ι] in
theorem view_setThread (s : State σ τ P A) (t : τ) (spot : Spot σ P A) :
    (s.setThread t spot).view = ⟨s.committed, Function.update s.view.pc t spot.pc⟩ := by
  refine congrArg (Atomic.mk s.committed) (funext fun u => ?_)
  by_cases hut : u = t
  · subst hut
    rw [State.setThread_self, Function.update_self]
  · rw [State.setThread_of_ne _ hut, Function.update_of_ne hut]
    rfl

omit [DecidableEq ι] in
/-- A thread that stays at its point is not seen to move. -/
theorem view_setThread_of_pc {t : τ} {spot : Spot σ P A} (h : spot.pc = (s.thread t).pc) :
    (s.setThread t spot).view = s.view := by
  rw [view_setThread, h]
  exact congrArg (Atomic.mk s.committed) (Function.update_eq_self t _)

/-- A signal does not change what a thread does next. -/
theorem Spot.woken_pc (i : ι) (spot : Spot σ P A) : (spot.woken i).pc = spot.pc := by
  cases spot with
  | free p => rfl
  | inside p a j whole rest => rfl
  | asleep j p =>
    simp only [Spot.woken]
    split <;> rfl

/-- The end of a program is the atomic machine's step. -/
theorem whole_step {t : τ} {p q : P} {a : A} {i : ι} {whole rest : Prog (σ i) P}
    {spot : Spot σ P A} (h : Sound code s) (hf : s.flag = false)
    (hin : s.thread t = .inside p a i whole rest)
    (hrest : rest.run false (s.data i) = (s.data i, q))
    (hspot : spot.pc = q) :
    (s.view).step code (.whole t a) = some ((s.release i).setThread t spot).view := by
  obtain ⟨-, hnext, hrun⟩ := h.inside hin
  have hpc : s.view.pc t = p := congrArg Spot.pc hin
  have hwhole : whole.run false (s.view.data i) = (s.data i, q) := (hrun hf).symm.trans hrest
  simp only [Atomic.step, hpc, hnext, hwhole]
  rw [view_setThread, hspot]
  rfl

/-- What the locks publish is the work of whole programs. -/
theorem refines {g : Atomic σ τ P → AtomicAction τ A → Prop}
    (h : (system code data pc).Reach (fun s b => ∀ c, s.commits code b = some c → g s.view c) s) :
    s.flag = false → (atomic code data pc).Reach g s.view := by
  refine h.invariant_while (P := fun s => s.flag = false)
    (I := fun s => (atomic code data pc).Reach g s.view) ?_ ?_ ?_
  · intro s b s' _ hs hf
    have hstep : s.step code b = some s' := hs
    cases stepped hstep with
    | raise => cases hf
    | _ => exact hf
  · rintro s rfl -
    exact .init rfl
  · intro s b s' hr hf hI hg hs
    have hsound := sound_reach hr
    have hcommit : ∀ {c}, s.commits code b = some c → s.view.step code c = some s'.view →
        (atomic code data pc).Reach g s'.view := fun hc hatomic => .step hI (hg _ hc) hatomic
    have hstep : s.step code b = some s' := hs
    cases stepped hstep with
    | @hop t a p q hp hnext =>
      refine hcommit (c := .hop t a) (by simp only [State.commits, hp, hnext]) ?_
      have hpc : s.view.pc t = p := congrArg Spot.pc hp
      simp only [Atomic.step, hpc, hnext, view_setThread]
      rfl
    | raise => cases hf
    | lock hp _ _ =>
      refine (congrArg _ (view_setThread_of_pc ?_)).mpr hI
      rw [hp]
      rfl
    | @ret t p a i whole q hin =>
      exact hcommit (c := .whole t a) (by simp only [State.commits, hin])
        (whole_step hsound hf hin rfl rfl)
    | @wait t p a i whole q hin =>
      exact hcommit (c := .whole t a) (by simp only [State.commits, hin])
        (whole_step hsound hf hin rfl rfl)
    | edit hin =>
      refine (congrArg _ (view_setThread_of_pc ?_)).mpr hI
      rw [hin]
      rfl
    | @signal t p a i whole k hin =>
      rw [view_setThread_of_pc (Spot.woken_pc ..), view_setThread_of_pc]
      · exact hI
      · rw [hin]
        rfl
    | test hin =>
      rw [view_setThread_of_pc]
      · exact hI
      · rw [hin]
        rfl
    | rouse hp =>
      rw [view_setThread_of_pc]
      · exact hI
      · rw [hp]
        rfl
    | @expire t a i p q hp hq =>
      refine hcommit (c := .expire t a) rfl ?_
      have hpc : s.view.pc t = p := congrArg Spot.pc hp
      simp only [Atomic.step, hpc, hq, view_setThread]
      rfl

/-! ## Sleepers

One thread serves a lock, and sleeps on its condition variable when there is nothing to do.  What
keeps a sleeper from being forgotten is a matter of programs: whoever makes the data ready signals
before it gives the lock back (`Alert`), and the server looks before it lies down (`Careful`).  The
flag is raised outside the lock, so there is a second argument: whoever has raised it still comes by
every lock it has not signalled (`Owing`). -/

omit [DecidableEq ι] [DecidableEq τ] in
/-- Two threads cannot be inside one lock. -/
theorem Sound.same {t u : τ} {i : ι} {p q : P} {a b : A} {whole rest whole' rest' : Prog (σ i) P}
    (h : Sound code s) (ht : s.thread t = .inside p a i whole rest)
    (hu : s.thread u = .inside q b i whole' rest') : u = t := by
  have hi := (h.inside ht).1
  rw [(h.inside hu).1, Option.some.injEq] at hi
  exact hi

/-- A step moves no other thread, but that a signal may wake one. -/
theorem Stepped.other {b : Action τ A} (h : Stepped code s b s') {u : τ} (hu : u ≠ b.thread) :
    s'.thread u = s.thread u ∨ ∃ j p, s.thread u = .asleep j p ∧ s'.thread u = .free p := by
  cases h with
  | @signal t p a i whole k hin =>
    have hother : (s.setThread t (.inside p a i whole k)).thread u = s.thread u :=
      State.setThread_of_ne _ hu _
    by_cases hserver : u = code.server i
    · rw [← hserver, hother, State.setThread_self]
      cases hspot : s.thread u with
      | free q => exact .inl rfl
      | inside q b l w r => exact .inl rfl
      | asleep j q =>
        by_cases hj : j = i
        · exact .inr ⟨j, q, rfl, if_pos hj⟩
        · exact .inl (if_neg hj)
    · exact .inl ((State.setThread_of_ne _ hserver _).trans hother)
  | hop => exact .inl (State.setThread_of_ne _ hu _)
  | raise => exact .inl (State.setThread_of_ne _ hu _)
  | lock => exact .inl (State.setThread_of_ne _ hu _)
  | ret => exact .inl (State.setThread_of_ne _ hu _)
  | wait => exact .inl (State.setThread_of_ne _ hu _)
  | edit => exact .inl (State.setThread_of_ne _ hu _)
  | test => exact .inl (State.setThread_of_ne _ hu _)
  | rouse => exact .inl (State.setThread_of_ne _ hu _)
  | expire => exact .inl (State.setThread_of_ne _ hu _)

/-- Only an edit under its lock changes data. -/
theorem Stepped.edited {b : Action τ A} (h : Stepped code s b s') (i : ι) :
    s'.data i = s.data i ∨ ∃ p a whole f k, s.thread b.thread = .inside p a i whole (.edit f k) ∧
      s'.data i = f (s.data i) ∧ s'.thread b.thread = .inside p a i whole (k (s.data i)) := by
  cases h with
  | @edit t p a j whole f k hin =>
    by_cases hij : i = j
    · subst hij
      exact .inr ⟨p, a, whole, f, k, hin, Function.update_self .., State.setThread_self ..⟩
    · exact .inl (Function.update_of_ne hij ..)
  | _ => exact .inl rfl

/-- What a thread inside a program does. -/
inductive Onward (code : Code σ τ P A) (s s' : State σ τ P A) (t : τ) (p : P) (a : A) (i : ι)
    (whole : Prog (σ i) P) : Prog (σ i) P → Prop
  | ret {q} : s'.thread t = .free q → s'.data i = s.data i → Onward code s s' t p a i whole (.ret q)
  | wait {q} : s'.thread t = .asleep i q → s'.data i = s.data i →
      Onward code s s' t p a i whole (.wait q)
  | edit {f k} : s'.thread t = .inside p a i whole (k (s.data i)) → s'.data i = f (s.data i) →
      Onward code s s' t p a i whole (.edit f k)
  | signal {k} : s'.thread t = .inside p a i whole k → s'.data i = s.data i →
      (∀ q, s'.thread (code.server i) ≠ .asleep i q) → Onward code s s' t p a i whole (.signal k)
  | test {k} : s'.thread t = .inside p a i whole (k s.flag) → s'.data i = s.data i →
      Onward code s s' t p a i whole (.test k)

/-- What a thread inside a section can do. -/
theorem Stepped.onward {b : Action τ A} (hs : Stepped code s b s') {p : P} {a : A} {i : ι}
    {whole rest : Prog (σ i) P} (hin : s.thread b.thread = .inside p a i whole rest) :
    Onward code s s' b.thread p a i whole rest := by
  cases hs with
  | hop ht => cases ht.symm.trans hin
  | raise ht => cases ht.symm.trans hin
  | lock ht => cases ht.symm.trans hin
  | ret ht =>
    cases ht.symm.trans hin
    exact .ret (State.setThread_self ..) rfl
  | wait ht =>
    cases ht.symm.trans hin
    exact .wait (State.setThread_self ..) rfl
  | edit ht =>
    cases ht.symm.trans hin
    exact .edit (State.setThread_self ..) (Function.update_self ..)
  | @signal t p a i whole k ht =>
    cases ht.symm.trans hin
    refine .signal ?_ rfl ?_
    · show ((s.setThread t _).setThread (code.server i) _).thread t = _
      by_cases hserver : t = code.server i
      · rw [← hserver, State.setThread_self, State.setThread_self]
        rfl
      · rw [State.setThread_of_ne _ hserver, State.setThread_self]
    · intro q hq
      rw [State.setThread_self] at hq
      generalize (s.setThread t _).thread (code.server i) = spot at hq
      cases spot with
      | free r => cases hq
      | inside r b l w x => cases hq
      | asleep l r =>
        simp only [Spot.woken] at hq
        split at hq
        · cases hq
        · rename_i hl
          cases hq
          exact hl rfl
  | test ht =>
    cases ht.symm.trans hin
    exact .test (State.setThread_self ..) rfl
  | rouse ht => cases ht.symm.trans hin
  | expire ht => cases ht.symm.trans hin

/-- What a thread outside all programs does. -/
inductive Outward (code : Code σ τ P A) (s s' : State σ τ P A) (t : τ) (p : P) : Prop
  | hop {a q} : code.next t p a = some (.hop q) → s'.thread t = .free q → s'.flag = s.flag →
      Outward code s s' t p
  | raise {a q} : code.next t p a = some (.raise q) → s'.thread t = .free q → Outward code s s' t p
  | lock {a i prog} : code.next t p a = some (.lock i prog) →
      s'.thread t = .inside p a i prog prog → s'.flag = s.flag → Outward code s s' t p

/-- What a thread outside all sections can do. -/
theorem Stepped.outward {b : Action τ A} (hs : Stepped code s b s') {p : P}
    (hp : s.thread b.thread = .free p) : Outward code s s' b.thread p := by
  cases hs with
  | hop ht hnext =>
    cases ht.symm.trans hp
    exact .hop hnext (State.setThread_self ..) rfl
  | raise ht hnext =>
    cases ht.symm.trans hp
    exact .raise hnext (State.setThread_self ..)
  | lock ht hnext _ =>
    cases ht.symm.trans hp
    exact .lock hnext (State.setThread_self ..) rfl
  | ret ht => cases ht.symm.trans hp
  | wait ht => cases ht.symm.trans hp
  | edit ht => cases ht.symm.trans hp
  | signal ht => cases ht.symm.trans hp
  | test ht => cases ht.symm.trans hp
  | rouse ht => cases ht.symm.trans hp
  | expire ht => cases ht.symm.trans hp

/-- A thread asleep can only get up. -/
theorem Stepped.up {b : Action τ A} (hs : Stepped code s b s') {i : ι} {p : P}
    (hp : s.thread b.thread = .asleep i p) :
    ∃ q, s'.thread b.thread = .free q ∧ (q = p ∨ ∃ a, code.expire p a = some q) := by
  cases hs with
  | rouse ht =>
    cases ht.symm.trans hp
    exact ⟨_, State.setThread_self .., .inl rfl⟩
  | expire ht hq =>
    cases ht.symm.trans hp
    exact ⟨_, State.setThread_self .., .inr ⟨_, hq⟩⟩
  | hop ht => cases ht.symm.trans hp
  | raise ht => cases ht.symm.trans hp
  | lock ht => cases ht.symm.trans hp
  | ret ht => cases ht.symm.trans hp
  | wait ht => cases ht.symm.trans hp
  | edit ht => cases ht.symm.trans hp
  | signal ht => cases ht.symm.trans hp
  | test ht => cases ht.symm.trans hp

/-- What a thread inside a program has just done. -/
inductive Inward (code : Code σ τ P A) (s s' : State σ τ P A) (t : τ) (p : P) (a : A) (i : ι)
    (whole : Prog (σ i) P) : Prog (σ i) P → Prop
  | lock : code.next t p a = some (.lock i whole) → Inward code s s' t p a i whole whole
  | edit {f k} : s.thread t = .inside p a i whole (.edit f k) → s'.data i = f (s.data i) →
      Inward code s s' t p a i whole (k (s.data i))
  | signal {k} : s.thread t = .inside p a i whole (.signal k) → s'.data i = s.data i →
      Inward code s s' t p a i whole k
  | test {k} : s.thread t = .inside p a i whole (.test k) → s'.data i = s.data i →
      Inward code s s' t p a i whole (k s.flag)

/-- How a thread comes to be where it is inside a section. -/
theorem Stepped.inward {b : Action τ A} (hs : Stepped code s b s') {p : P} {a : A} {i : ι}
    {whole rest : Prog (σ i) P} (hin : s'.thread b.thread = .inside p a i whole rest) :
    Inward code s s' b.thread p a i whole rest := by
  cases hspot : s.thread b.thread with
  | free q =>
    cases hs.outward hspot with
    | hop _ hfree _ => cases hfree.symm.trans hin
    | raise _ hfree => cases hfree.symm.trans hin
    | lock hnext hin' _ =>
      cases hin'.symm.trans hin
      exact .lock hnext
  | inside q c j w r =>
    cases hs.onward hspot with
    | ret hfree _ => cases hfree.symm.trans hin
    | wait hasleep _ => cases hasleep.symm.trans hin
    | edit hin' hdata =>
      cases hin'.symm.trans hin
      exact .edit hspot hdata
    | signal hin' hdata _ =>
      cases hin'.symm.trans hin
      exact .signal hspot hdata
    | test hin' hdata =>
      cases hin'.symm.trans hin
      exact .test hspot hdata
  | asleep j q =>
    obtain ⟨r, hfree, -⟩ := hs.up hspot
    cases hfree.symm.trans hin

/-- A thread that has just gone to sleep has ended a program. -/
theorem Stepped.lies_down {b : Action τ A} (hs : Stepped code s b s') {i : ι} {q : P}
    (hasleep : s'.thread b.thread = .asleep i q) :
    ∃ p a whole, s.thread b.thread = .inside p a i whole (.wait q) ∧ s'.data i = s.data i := by
  cases hspot : s.thread b.thread with
  | free p =>
    cases hs.outward hspot with
    | hop _ hfree _ => cases hfree.symm.trans hasleep
    | raise _ hfree => cases hfree.symm.trans hasleep
    | lock _ hin _ => cases hin.symm.trans hasleep
  | inside p a j whole rest =>
    cases hs.onward hspot with
    | ret hfree _ => cases hfree.symm.trans hasleep
    | wait hasleep' hdata =>
      cases hasleep'.symm.trans hasleep
      exact ⟨p, a, whole, rfl, hdata⟩
    | edit hin _ => cases hin.symm.trans hasleep
    | signal hin _ _ => cases hin.symm.trans hasleep
    | test hin _ => cases hin.symm.trans hasleep
  | asleep j p =>
    obtain ⟨r, hfree, -⟩ := hs.up hspot
    cases hfree.symm.trans hasleep

/-- The flag is raised by a step that raises it. -/
theorem Stepped.flag {b : Action τ A} (hs : Stepped code s b s') :
    s'.flag = s.flag ∨ ∃ p a q, code.next b.thread p a = some (.raise q) ∧
      s'.thread b.thread = .free q := by
  cases hs with
  | raise _ hnext => exact .inr ⟨_, _, _, hnext, State.setThread_self ..⟩
  | _ => exact .inl rfl

/-- The thread holds lock `i` and is going to signal. -/
def Spot.Signaling (i : ι) (data : ∀ j, σ j) (spot : Spot σ P A) : Prop :=
  ∃ p a whole rest, spot = .inside p a i whole rest ∧ rest.Signals (data i)

/-- The thread is on its way to a signal on lock `i`: from the points in `owes` there is no other
    way. -/
def Spot.Owing (owes : P → Prop) (i : ι) (data : ∀ j, σ j) : Spot σ P A → Prop
  | .free p => owes p
  | .inside p _ j _ rest => owes p ∧ if j = i then rest.Signals (data j) else rest.Leaves owes
  | .asleep _ _ => False

/-- The thread sleeps on lock `i`, or is about to, whatever the flag. -/
def Spot.Deaf (i : ι) (data : ∀ j, σ j) : Spot σ P A → Prop
  | .free _ => False
  | .inside _ _ j _ rest => j = i ∧ rest.Blind (data j)
  | .asleep j _ => j = i

/-- The code treats lock `i` well: who makes its data ready signals before the unlocking, and its
    server does not go to sleep over ready data. -/
structure Watched (code : Code σ τ P A) (i : ι) (ready : σ i → Bool) : Prop where
  alert : ∀ {t p a prog}, code.next t p a = some (.lock i prog) → t ≠ code.server i →
    prog.Alert ready
  careful : ∀ {p a prog}, code.next (code.server i) p a = some (.lock i prog) →
    ∀ d, prog.Careful ready d

/-- The code tells the server of lock `i` of the flag: who has raised it signals later, and the
    server does not go to sleep once it has seen it raised. -/
structure Heeded (code : Code σ τ P A) (i : ι) (owes : P → Prop) : Prop where
  brisk : ∀ {p a prog}, code.next (code.server i) p a = some (.lock i prog) → ∀ d, ¬ prog.Blind d
  raised : ∀ {t p a q}, code.next t p a = some (.raise q) → t ≠ code.server i ∧ owes q
  hop : ∀ {t p a q}, code.next t p a = some (.hop q) → owes p → owes q
  signals : ∀ {t p a prog}, code.next t p a = some (.lock i prog) → owes p → ∀ d, prog.Signals d
  leaves : ∀ {t p a j prog}, code.next t p a = some (.lock j prog) → j ≠ i → owes p →
    prog.Leaves owes

/-- The server of a watched lock is watched over. -/
structure Vigilant (code : Code σ τ P A) (i : ι) (ready : σ i → Bool) (s : State σ τ P A) :
    Prop where
  alert : ∀ {t p a whole rest}, s.thread t = .inside p a i whole rest → t ≠ code.server i →
    rest.Alert ready
  careful : ∀ {p a whole rest}, s.thread (code.server i) = .inside p a i whole rest →
    rest.Careful ready (s.data i)
  asleep : ∀ {p}, s.thread (code.server i) = .asleep i p → ready (s.data i) = true →
    ∃ t, t ≠ code.server i ∧ (s.thread t).Signaling i s.data

/-- Somebody comes to tell the server of the flag. -/
def Heard (code : Code σ τ P A) (i : ι) (owes : P → Prop) (s : State σ τ P A) : Prop :=
  s.flag = true → (s.thread (code.server i)).Deaf i s.data →
    ∃ t, t ≠ code.server i ∧ (s.thread t).Owing owes i s.data

section Watch

variable {i : ι} {ready : σ i → Bool} {owes : P → Prop} {b : Action τ A}

/-- What another thread does under its lock is its own business. -/
theorem Stepped.data_of_other (h : Sound code s) (hs : Stepped code s b s') {u : τ}
    (hu : u ≠ b.thread) {q : P} {a : A} {whole rest : Prog (σ i) P}
    (hin : s.thread u = .inside q a i whole rest) : s'.data i = s.data i := by
  rcases hs.edited i with heq | ⟨_, _, _, _, _, ht, -, -⟩
  · exact heq
  · exact absurd (h.same ht hin) hu

/-- Nobody else can take from a thread what it owes. -/
theorem owing_other (h : Sound code s) (hs : Stepped code s b s') {u : τ} (hu : u ≠ b.thread)
    (ho : (s.thread u).Owing owes i s.data) : (s'.thread u).Owing owes i s'.data := by
  rcases hs.other hu with heq | ⟨j, p, hasleep, -⟩
  · rw [heq]
    cases hspot : s.thread u with
    | free p =>
      rw [hspot] at ho
      exact ho
    | inside p a j whole rest =>
      rw [hspot] at ho
      by_cases hj : j = i
      · subst hj
        simp only [Spot.Owing, if_true] at ho ⊢
        rwa [hs.data_of_other h hu hspot]
      · simpa only [Spot.Owing, if_neg hj] using ho
    | asleep j p =>
      rw [hspot] at ho
      exact ho
  · rw [hasleep] at ho
    exact ho.elim

/-- Nobody else makes the server deaf. -/
theorem deaf_other (h : Sound code s) (hs : Stepped code s b s') {u : τ} (hu : u ≠ b.thread)
    (hd : (s'.thread u).Deaf i s'.data) : (s.thread u).Deaf i s.data := by
  rcases hs.other hu with heq | ⟨j, p, -, hfree⟩
  · rw [heq] at hd
    cases hspot : s.thread u with
    | free p =>
      rw [hspot] at hd
      exact hd
    | inside p a j whole rest =>
      rw [hspot] at hd
      obtain ⟨rfl, hblind⟩ := hd
      exact ⟨rfl, by rwa [hs.data_of_other h hu hspot] at hblind⟩
    | asleep j p =>
      rw [hspot] at hd
      exact hd
  · rw [hfree] at hd
    exact hd.elim

/-- A thread that is going to signal goes on to, or has just signalled. -/
theorem signaling_self (hs : Stepped code s b s') {p : P} {a : A} {whole rest : Prog (σ i) P}
    (hin : s.thread b.thread = .inside p a i whole rest) (hsig : rest.Signals (s.data i)) :
    ∃ rest', s'.thread b.thread = .inside p a i whole rest' ∧
      (rest'.Signals (s'.data i) ∨ ∀ q, s'.thread (code.server i) ≠ .asleep i q) := by
  cases hs.onward hin with
  | ret => exact hsig.elim
  | wait => exact hsig.elim
  | @edit f k hin' hdata => exact ⟨k (s.data i), hin', .inl (hdata ▸ hsig)⟩
  | @signal k hin' _ hwoken => exact ⟨k, hin', .inr hwoken⟩
  | @test k hin' hdata => exact ⟨k s.flag, hin', .inl (hdata ▸ hsig s.flag)⟩

/-- So does a thread on its way to a signal. -/
theorem owing_self (hw : Heeded code i owes) (hs : Stepped code s b s')
    (ho : (s.thread b.thread).Owing owes i s.data) :
    (s'.thread b.thread).Owing owes i s'.data ∨
      (∃ p a whole rest, s'.thread b.thread = .inside p a i whole rest) ∧
        ∀ p, s'.thread (code.server i) ≠ .asleep i p := by
  cases hspot : s.thread b.thread with
  | free p =>
    rw [hspot] at ho
    left
    cases hs.outward hspot with
    | hop hnext hfree _ =>
      rw [hfree]
      exact hw.hop hnext ho
    | raise hnext hfree =>
      rw [hfree]
      exact (hw.raised hnext).2
    | @lock a j prog hnext hin _ =>
      rw [hin]
      refine ⟨ho, ?_⟩
      by_cases hj : j = i
      · subst hj
        simpa only [if_true] using hw.signals hnext ho _
      · simpa only [if_neg hj] using hw.leaves hnext hj ho
  | inside p a j whole rest =>
    rw [hspot] at ho
    obtain ⟨hp, ho⟩ := ho
    by_cases hj : j = i
    · subst hj
      simp only [if_true] at ho
      obtain ⟨rest', hin, hsig | hwoken⟩ := signaling_self hs hspot ho
      · left
        rw [hin]
        exact ⟨hp, by simpa only [if_true] using hsig⟩
      · exact .inr ⟨⟨_, _, _, _, hin⟩, hwoken⟩
    · left
      simp only [if_neg hj] at ho
      cases hs.onward hspot with
      | ret hfree _ => rwa [hfree]
      | wait => exact ho.elim
      | edit hin _ =>
        rw [hin]
        exact ⟨hp, by simpa only [if_neg hj] using ho _⟩
      | signal hin _ _ =>
        rw [hin]
        refine ⟨hp, ?_⟩
        simp only [if_neg hj]
        exact ho
      | test hin _ =>
        rw [hin]
        exact ⟨hp, by simpa only [if_neg hj] using ho _⟩
  | asleep j p =>
    rw [hspot] at ho
    exact ho.elim

/-- Who owes a signal is at a point that says so. -/
theorem Spot.Owing.point {spot : Spot σ P A} {d : ∀ j, σ j} (h : spot.Owing owes i d) :
    owes spot.pc := by
  cases spot with
  | free p => exact h
  | inside p a j whole rest => exact h.1
  | asleep j p => exact h.elim

/-- With the flag raised, the server does not make itself deaf. -/
theorem deaf_self (hw : Heeded code i owes) (hs : Stepped code s b s')
    (hb : b.thread = code.server i) (hflag : s.flag = true)
    (hd : (s'.thread (code.server i)).Deaf i s'.data) :
    (s.thread (code.server i)).Deaf i s.data := by
  rw [← hb] at hd ⊢
  cases hspot : s'.thread b.thread with
  | free p =>
    rw [hspot] at hd
    exact hd.elim
  | inside p a j whole rest =>
    rw [hspot] at hd
    obtain ⟨rfl, hblind⟩ := hd
    cases hs.inward hspot with
    | lock hnext => exact absurd hblind (hw.brisk (hb ▸ hnext) _)
    | edit hin hdata =>
      rw [hin]
      rw [hdata] at hblind
      exact ⟨rfl, hblind⟩
    | signal hin hdata =>
      rw [hin]
      exact ⟨rfl, hdata ▸ hblind⟩
    | test hin hdata =>
      rw [hin]
      rw [hflag, hdata] at hblind
      exact ⟨rfl, hblind⟩
  | asleep j p =>
    rw [hspot] at hd
    obtain ⟨q, a, whole, hin, -⟩ := hs.lies_down hspot
    rw [hin]
    exact ⟨hd, trivial⟩

/-- A thread that makes work available has the signal still before it. -/
theorem alert_step (hw : Watched code i ready) (hs : Stepped code s b s')
    (h : Vigilant code i ready s) {t : τ} {p : P} {a : A} {whole rest : Prog (σ i) P}
    (hin : s'.thread t = .inside p a i whole rest) (ht : t ≠ code.server i) : rest.Alert ready := by
  by_cases hb : t = b.thread
  · subst hb
    cases hs.inward hin with
    | lock hnext => exact hw.alert hnext ht
    | edit hwas _ => exact (h.alert hwas ht _).2
    | signal hwas _ =>
      have hrest := h.alert hwas ht
      exact hrest
    | test hwas _ => exact h.alert hwas ht _
  · rcases hs.other hb with heq | ⟨j, q, -, hfree⟩
    · exact h.alert (heq ▸ hin) ht
    · cases hfree.symm.trans hin

/-- A server that goes to sleep has looked. -/
theorem careful_step (hw : Watched code i ready) (hsound : Sound code s)
    (hs : Stepped code s b s') (h : Vigilant code i ready s) {p : P} {a : A}
    {whole rest : Prog (σ i) P} (hin : s'.thread (code.server i) = .inside p a i whole rest) :
    rest.Careful ready (s'.data i) := by
  by_cases hb : code.server i = b.thread
  · rw [hb] at hin
    cases hs.inward hin with
    | lock hnext => exact hw.careful (hb ▸ hnext) _
    | edit hwas hdata =>
      have hrest := h.careful (hb ▸ hwas)
      rw [hdata]
      exact hrest
    | signal hwas hdata =>
      have hrest := h.careful (hb ▸ hwas)
      rw [hdata]
      exact hrest
    | test hwas hdata =>
      have hrest := h.careful (hb ▸ hwas)
      rw [hdata]
      exact hrest _
  · rcases hs.other hb with heq | ⟨j, q, -, hfree⟩
    · rw [heq] at hin
      rw [hs.data_of_other hsound hb hin]
      exact h.careful hin
    · cases hfree.symm.trans hin

/-- If the server sleeps over work, the signal is still to come. -/
theorem asleep_step (hsound : Sound code s) (hs : Stepped code s b s')
    (h : Vigilant code i ready s) {p : P} (hasleep : s'.thread (code.server i) = .asleep i p)
    (hready : ready (s'.data i) = true) :
    ∃ t, t ≠ code.server i ∧ (s'.thread t).Signaling i s'.data := by
  by_cases hb : code.server i = b.thread
  · -- the server has just gone to sleep, and has seen that the data is not ready
    rw [hb] at hasleep
    obtain ⟨q, c, w, hwas, hdata⟩ := hs.lies_down hasleep
    have hrest := h.careful (hb ▸ hwas)
    rw [hdata] at hready
    exact absurd hready (Bool.eq_false_iff.mp hrest)
  · have hasleep₀ : s.thread (code.server i) = .asleep i p := by
      rcases hs.other hb with heq | ⟨j, q, -, hfree⟩
      · rw [← heq, hasleep]
      · cases hfree.symm.trans hasleep
    by_cases hready₀ : ready (s.data i) = true
    · obtain ⟨t, ht, q, a, w, r, hin, hr⟩ := h.asleep hasleep₀ hready₀
      by_cases htb : t = b.thread
      · subst htb
        obtain ⟨r', hin', hr' | hwoken⟩ := signaling_self hs hin hr
        · exact ⟨_, ht, q, a, w, r', hin', hr'⟩
        · exact absurd hasleep (hwoken p)
      · rcases hs.other htb with heq | ⟨j, q', hq', -⟩
        · exact ⟨t, ht, q, a, w, r, heq.trans hin, hs.data_of_other hsound htb hin ▸ hr⟩
        · cases hq'.symm.trans hin
    · -- the data has just become ready, and who did it is still inside
      rcases hs.edited i with heq | ⟨q, a, w, f, k, hin, hdata, hin'⟩
      · rw [heq] at hready
        exact absurd hready hready₀
      · rw [hdata] at hready
        have halert :=
          (h.alert hin (Ne.symm hb) (s.data i)).1 (Bool.eq_false_iff.mpr hready₀) hready
        exact ⟨b.thread, Ne.symm hb, q, a, w, _, hin', hdata ▸ halert⟩

/-- One step keeps it so: somebody comes to tell a server that does not hear the flag. -/
theorem heard_step (hw : Heeded code i owes) (hsound : Sound code s) (hsound' : Sound code s')
    (hs : Stepped code s b s') (h : Heard code i owes s) : Heard code i owes s' := by
  intro hflag' hdeaf
  rcases hs.flag with hflag | ⟨p, a, q, hnext, hfree⟩
  · rw [hflag] at hflag'
    have hdeaf₀ : (s.thread (code.server i)).Deaf i s.data := by
      by_cases hb : code.server i = b.thread
      · exact deaf_self hw hs hb.symm hflag' hdeaf
      · exact deaf_other hsound hs hb hdeaf
    obtain ⟨t, ht, ho⟩ := h hflag' hdeaf₀
    by_cases htb : t = b.thread
    · subst htb
      rcases owing_self hw hs ho with ho' | ⟨⟨q, a, w, r, hin⟩, hwoken⟩
      · exact ⟨_, ht, ho'⟩
      · -- it has signalled: the server is not asleep, and with the signaller inside in no program
        exfalso
        cases hserver : s'.thread (code.server i) with
        | free p =>
          rw [hserver] at hdeaf
          exact hdeaf
        | inside p c j w' r' =>
          rw [hserver] at hdeaf
          obtain ⟨rfl, -⟩ := hdeaf
          exact ht (hsound'.same hserver hin)
        | asleep j p =>
          rw [hserver] at hdeaf
          obtain rfl : j = i := hdeaf
          exact hwoken p hserver
    · exact ⟨t, ht, owing_other hsound hs htb ho⟩
  · obtain ⟨ht, ho⟩ := hw.raised hnext
    exact ⟨b.thread, ht, by rw [hfree]; exact ho⟩

/-- In every run the server is watched over: it sleeps over no work unless a signal is to come. -/
theorem vigilant_reach {ok : State σ τ P A → Action τ A → Prop} (hw : Watched code i ready)
    (h : (system code data pc).Reach ok s) : Vigilant code i ready s := by
  refine h.invariant ?_ ?_
  · rintro s rfl
    exact ⟨fun h => (by cases h), fun h => (by cases h), fun h => (by cases h)⟩
  · intro s b s' hr hI _ hs
    have hsound := sound_reach hr
    exact ⟨alert_step hw (stepped hs) hI, careful_step hw hsound (stepped hs) hI,
      asleep_step hsound (stepped hs) hI⟩

/-- Over ready data the server sleeps only until the thread that made it so, and still holds the
    lock, signals. -/
theorem no_lost_wakeup {ok : State σ τ P A → Action τ A → Prop} (hw : Watched code i ready)
    (h : (system code data pc).Reach ok s) {p : P} (hp : s.thread (code.server i) = .asleep i p)
    (hready : ready (s.data i) = true) :
    ∃ t, t ≠ code.server i ∧ (s.thread t).Signaling i s.data :=
  (vigilant_reach hw h).asleep hp hready

/-- Over the raised flag it sleeps only until a thread comes that is on its way. -/
theorem no_lost_flag {ok : State σ τ P A → Action τ A → Prop} (hw : Heeded code i owes)
    (h : (system code data pc).Reach ok s) {p : P} (hp : s.thread (code.server i) = .asleep i p)
    (hflag : s.flag = true) : ∃ t, t ≠ code.server i ∧ (s.thread t).Owing owes i s.data := by
  have hheard : Heard code i owes s := by
    refine h.invariant ?_ ?_
    · rintro s rfl hf
      cases hf
    · intro s b s' hr hI _ hs
      exact heard_step hw (sound_reach hr) (sound_step (sound_reach hr) hs) (stepped hs) hI
  refine hheard hflag ?_
  rw [hp]
  rfl

end Watch

/-! ## Where threads get

An invariant about the points threads reach, to be proved one program at a time. -/

/-- What holds of the points a thread starts from and is kept by all its steps holds of every point
    it gets to. -/
theorem placed_reach {ok : State σ τ P A → Action τ A → Prop} {Q : τ → P → Prop}
    (hstart : ∀ t, Q t (pc t))
    (hhop : ∀ {t p a q}, code.next t p a = some (.hop q) → Q t p → Q t q)
    (hraise : ∀ {t p a q}, code.next t p a = some (.raise q) → Q t p → Q t q)
    (hlock : ∀ {t p a i prog}, code.next t p a = some (.lock i prog) → Q t p → prog.Ends (Q t))
    (hexpire : ∀ {t p a q}, code.expire p a = some q → Q t p → Q t q)
    (h : (system code data pc).Reach ok s) (t : τ) : Q t (s.thread t).pc := by
  suffices hall : ∀ t, Q t (s.thread t).pc ∧
      ∀ {p a i whole rest}, s.thread t = .inside p a i whole rest → rest.Ends (Q t) from (hall t).1
  refine h.invariant (I := fun s => ∀ t, Q t (s.thread t).pc ∧
      ∀ {p a i whole rest}, s.thread t = .inside p a i whole rest → rest.Ends (Q t)) ?_ ?_
  · rintro s rfl t
    exact ⟨hstart t, fun h => (by cases h)⟩
  · intro s b s' _ hI _ hs t
    have hstep : s.step code b = some s' := hs
    have hs := stepped hstep
    obtain ⟨hQ, hends⟩ := hI t
    by_cases hb : t = b.thread
    · subst hb
      cases hspot : s.thread b.thread with
      | free p =>
        rw [hspot] at hQ
        cases hs.outward hspot with
        | hop hnext hfree _ =>
          rw [hfree]
          exact ⟨hhop hnext hQ, fun h => (by cases h)⟩
        | raise hnext hfree =>
          rw [hfree]
          exact ⟨hraise hnext hQ, fun h => (by cases h)⟩
        | lock hnext hin _ =>
          rw [hin]
          refine ⟨hQ, fun h => ?_⟩
          cases h
          exact hlock hnext hQ
      | inside p a i whole rest =>
        have hrest := hends hspot
        rw [hspot] at hQ
        cases hs.onward hspot with
        | ret hfree _ =>
          rw [hfree]
          exact ⟨hrest, fun h => (by cases h)⟩
        | wait hasleep _ =>
          rw [hasleep]
          exact ⟨hrest, fun h => (by cases h)⟩
        | edit hin _ =>
          rw [hin]
          refine ⟨hQ, fun h => ?_⟩
          cases h
          exact hrest _
        | signal hin _ _ =>
          rw [hin]
          refine ⟨hQ, fun h => ?_⟩
          cases h
          exact hrest
        | test hin _ =>
          rw [hin]
          refine ⟨hQ, fun h => ?_⟩
          cases h
          exact hrest _
      | asleep i p =>
        rw [hspot] at hQ
        obtain ⟨q, hfree, rfl | ⟨a, hq⟩⟩ := hs.up hspot
        · rw [hfree]
          exact ⟨hQ, fun h => (by cases h)⟩
        · rw [hfree]
          exact ⟨hexpire hq hQ, fun h => (by cases h)⟩
    · rcases hs.other hb with heq | ⟨j, p, hasleep, hfree⟩
      · rw [heq]
        exact ⟨hQ, hends⟩
      · rw [hfree]
        rw [hasleep] at hQ
        exact ⟨hQ, fun h => (by cases h)⟩

/-! ## Nothing is stuck

Whoever is inside a program can finish it by its own steps; nobody can keep it from that.  On the
way it at most wakes others. -/

/-- `s'` is reached from `s` by steps of thread `t` alone. -/
def ByThread (code : Code σ τ P A) (t : τ) (s s' : State σ τ P A) : Prop :=
  (System.ofFun (· = s) (State.step code)).Reach (fun _ b => b.thread = t) s'

/-- So it is, and all steps are inside programs. -/
def ByActs (code : Code σ τ P A) (t : τ) (s s' : State σ τ P A) : Prop :=
  (System.ofFun (· = s) (State.step code)).Reach (fun _ b => b = .act t) s'

/-- A thread's own steps, one more in front. -/
theorem ByActs.head {t : τ} {s₁ : State σ τ P A} (h : s.step code (.act t) = some s₁)
    (h' : ByActs code t s₁ s') : ByActs code t s s' := by
  have hstart : (System.ofFun (· = s) (State.step code)).Reach
      (fun _ b => b = Action.act t) s₁ := .step (.init rfl) rfl h
  exact hstart.trans h'

/-- They are steps of that thread. -/
theorem ByActs.byThread {t : τ} (h : ByActs code t s s') : ByThread code t s s' :=
  System.Reach.mono (fun _ b hb => by rw [hb]; rfl) h

/-- Only a step outside all programs raises the flag. -/
theorem ByActs.flag_eq {t : τ} (h : ByActs code t s s') : s'.flag = s.flag := by
  refine System.Reach.invariant (I := fun s' => s'.flag = s.flag) ?_ ?_ h
  · rintro s' rfl
    rfl
  · rintro s₁ b s₂ - hI rfl hs
    have hstep : s₁.step code (.act t) = some s₂ := hs
    cases stepped hstep <;> exact hI

/-- One more step of the same thread in front. -/
theorem ByThread.head {b : Action τ A} {s₁ : State σ τ P A} (h : s.step code b = some s₁)
    (h' : ByThread code b.thread s₁ s') : ByThread code b.thread s s' := by
  have hstart : (System.ofFun (· = s) (State.step code)).Reach
      (fun _ c => c.thread = b.thread) s₁ := .step (.init rfl) rfl h
  exact hstart.trans h'

/-- A second signal does what the first did. -/
theorem Spot.woken_woken (i : ι) (spot : Spot σ P A) : (spot.woken i).woken i = spot.woken i := by
  cases spot with
  | free p => rfl
  | inside p a j whole rest => rfl
  | asleep j p =>
    by_cases hj : j = i
    · simp only [Spot.woken, if_pos hj]
    · simp only [Spot.woken, if_neg hj]

/-- Nobody sleeps through a signal. -/
theorem Spot.woken_ne_asleep {i : ι} {p : P} (spot : Spot σ P A) : spot.woken i ≠ .asleep i p := by
  cases spot with
  | free q => exact nofun
  | inside q a j whole rest => exact nofun
  | asleep j q =>
    by_cases hj : j = i
    · simp only [Spot.woken, if_pos hj]
      exact nofun
    · simp only [Spot.woken, if_neg hj]
      rintro ⟨⟩
      exact hj rfl

/-- What the end of a program leaves of another thread's spot: at most, it is woken. -/
def Roused (i : ι) (spot spot' : Spot σ P A) : Prop := spot' = spot ∨ spot' = spot.woken i

/-- Roused, or left alone, twice. -/
theorem Roused.trans {i : ι} {x y z : Spot σ P A} (h : Roused i x y) (h' : Roused i y z) :
    Roused i x z := by
  rcases h with rfl | rfl
  · exact h'
  · rcases h' with rfl | rfl
    · exact .inr rfl
    · exact .inr (Spot.woken_woken ..)

/-- A thread inside its section at most rouses the others. -/
theorem Stepped.roused {b : Action τ A} (hs : Stepped code s b s') {p : P} {a : A} {i : ι}
    {whole rest : Prog (σ i) P} (hin : s.thread b.thread = .inside p a i whole rest) {u : τ}
    (hu : u ≠ b.thread) : Roused i (s.thread u) (s'.thread u) := by
  cases hs with
  | @signal t p a j whole k ht =>
    cases ht.symm.trans hin
    have hother : (s.setThread t (.inside p a i whole k)).thread u = s.thread u :=
      State.setThread_of_ne _ hu _
    by_cases hserver : u = code.server i
    · rw [← hserver, hother, State.setThread_self]
      exact .inr rfl
    · exact .inl ((State.setThread_of_ne _ hserver _).trans hother)
  | ret => exact .inl (State.setThread_of_ne _ hu _)
  | wait => exact .inl (State.setThread_of_ne _ hu _)
  | edit => exact .inl (State.setThread_of_ne _ hu _)
  | test => exact .inl (State.setThread_of_ne _ hu _)
  | hop ht => cases ht.symm.trans hin
  | raise ht => cases ht.symm.trans hin
  | lock ht => cases ht.symm.trans hin
  | rouse ht => cases ht.symm.trans hin
  | expire ht => cases ht.symm.trans hin

/-- What is woken stays awake. -/
theorem Roused.awake {i : ι} {x y : Spot σ P A} (h : Roused i x y) (hx : ∀ q, x ≠ .asleep i q) :
    ∀ q, y ≠ .asleep i q := by
  rcases h with rfl | rfl
  · exact hx
  · exact fun q => Spot.woken_ne_asleep x

/-- Whoever is in a program can take its next step. -/
theorem acts (code : Code σ τ P A) {t : τ} {p : P} {a : A} {i : ι} {whole rest : Prog (σ i) P}
    (hin : s.thread t = .inside p a i whole rest) :
    ∃ s', s.step code (.act t) = some s' ∧ s'.flag = s.flag := by
  simp only [State.step, State.act, hin]
  cases rest <;> exact ⟨_, rfl, rfl⟩

/-- Whoever is in a program can go on to its end: the lock is given back with what the program makes
    of the data, every other thread stays where it is or is woken, and the server is woken if
    the program signals. -/
theorem unlocks (code : Code σ τ P A) {t : τ} {p : P} {a : A} {i : ι} {whole rest : Prog (σ i) P}
    (hin : s.thread t = .inside p a i whole rest) :
    ∃ s' q, ByActs code t s s' ∧ s'.holder i = none ∧
      s'.thread t = (if rest.sleeps s.flag (s.data i) then .asleep i q else .free q) ∧
      s'.flag = s.flag ∧ (s'.data i, q) = rest.run s.flag (s.data i) ∧
      (∀ u, u ≠ t → Roused i (s.thread u) (s'.thread u)) ∧
      (rest.Signals (s.data i) → t ≠ code.server i →
        ∀ r, s'.thread (code.server i) ≠ .asleep i r) := by
  induction rest generalizing s with
  | ret q =>
    refine ⟨(s.release i).setThread t (.free q), q, .step (.init rfl) rfl ?_,
      Function.update_self .., State.setThread_self .., rfl, rfl,
      fun u hu => .inl (State.setThread_of_ne _ hu _), False.elim⟩
    show s.act code t = _
    simp only [State.act, hin]
  | wait q =>
    refine ⟨(s.release i).setThread t (.asleep i q), q, .step (.init rfl) rfl ?_,
      Function.update_self .., State.setThread_self .., rfl, rfl,
      fun u hu => .inl (State.setThread_of_ne _ hu _), False.elim⟩
    show s.act code t = _
    simp only [State.act, hin]
  | edit f k ih =>
    obtain ⟨s₁, hs, hflag⟩ := acts code hin
    cases (stepped hs).onward hin with
    | edit hin₁ hdata =>
      obtain ⟨s', q, hby, hfree, hend, hflag', hrun, hothers, hsig⟩ := ih (s.data i) hin₁
      rw [hdata] at hsig hrun hend
      rw [hflag] at hrun hend
      refine ⟨s', q, hby.head hs, hfree, hend, hflag'.trans hflag, hrun, fun u hu => ?_, hsig⟩
      exact ((stepped hs).roused hin hu).trans (hothers u hu)
  | signal k ih =>
    obtain ⟨s₁, hs, hflag⟩ := acts code hin
    cases (stepped hs).onward hin with
    | signal hin₁ hdata hwoken =>
      obtain ⟨s', q, hby, hfree, hend, hflag', hrun, hothers, -⟩ := ih hin₁
      rw [hdata, hflag] at hrun hend
      refine ⟨s', q, hby.head hs, hfree, hend, hflag'.trans hflag, hrun, fun u hu => ?_,
        fun _ ht => ?_⟩
      · exact ((stepped hs).roused hin hu).trans (hothers u hu)
      · exact (hothers _ ht.symm).awake hwoken
  | test k ih =>
    obtain ⟨s₁, hs, hflag⟩ := acts code hin
    cases (stepped hs).onward hin with
    | test hin₁ hdata =>
      obtain ⟨s', q, hby, hfree, hend, hflag', hrun, hothers, hsig⟩ := ih s.flag hin₁
      rw [hdata] at hsig hrun hend
      rw [hflag] at hrun hend
      refine ⟨s', q, hby.head hs, hfree, hend, hflag'.trans hflag, hrun, fun u hu => ?_,
        fun hsignals => hsig (hsignals s.flag)⟩
      exact ((stepped hs).roused hin hu).trans (hothers u hu)

/-- A server asleep over ready data is woken by one other thread, which then has given the lock
    back. -/
theorem wakes {i : ι} {ready : σ i → Bool}
    {ok : State σ τ P A → Action τ A → Prop} (hw : Watched code i ready)
    (h : (system code data pc).Reach ok s) {p : P} (hp : s.thread (code.server i) = .asleep i p)
    (hready : ready (s.data i) = true) :
    ∃ t, t ≠ code.server i ∧ (s.thread t).Signaling i s.data ∧
      ∃ s', ByActs code t s s' ∧ s'.holder i = none ∧ s'.thread (code.server i) = .free p := by
  obtain ⟨t, ht, q, a, whole, rest, hin, hsig⟩ := no_lost_wakeup hw h hp hready
  obtain ⟨s', -, hby, hfree, -, -, -, hothers, hwoken⟩ := unlocks code hin
  refine ⟨t, ht, ⟨q, a, whole, rest, hin, hsig⟩, s', hby, hfree, ?_⟩
  rcases hothers _ ht.symm with heq | heq
  · exact absurd (heq.trans hp) (hwoken hsig ht p)
  · rw [heq, hp]
    exact if_pos rfl

/-- A thread that finds a lock free can run the program it has there to its end: alone. -/
theorem runs {t : τ} {p : P} {a : A} {i : ι} {prog : Prog (σ i) P} (hp : s.thread t = .free p)
    (hnext : code.next t p a = some (.lock i prog)) (hi : s.holder i = none) :
    ∃ s' q, ByThread code t s s' ∧ s'.holder i = none ∧
      s'.thread t = (if prog.sleeps s.flag (s.data i) then .asleep i q else .free q) ∧
      (s'.data i, q) = prog.run s.flag (s.data i) := by
  have hin : ({ s.setThread t (.inside p a i prog prog) with
      holder := Function.update s.holder i (some t) } : State σ τ P A).thread t =
        .inside p a i prog prog := State.setThread_self ..
  obtain ⟨s', q, hby, hfree, hend, -, hrun, -, -⟩ := unlocks code hin
  refine ⟨s', q, ?_, hfree, hend, hrun⟩
  refine ByThread.head (b := .go t a) ?_ hby.byThread
  simp only [State.step, State.go, hp, hnext, hi, if_true]

end Steps

end System

end Monitor
