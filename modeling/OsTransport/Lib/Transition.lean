/-
  Transition systems, and the rules by which a property is proved of all their runs.

  A `System σ α` is a set of initial states and a step relation labelled by actions.  A run is
  restricted by a GUARD `ok : σ → α → Prop`: `M.Reach ok s` says that `s` is reached by a run
  every step of which meets the guard in the state it is taken from.  Assumptions about an
  environment ("a completion only arises from a posted request") and conditions under which
  a defective program still behaves are both guards, so one notion of run serves for
  both.

  Three rules are proved once and used by name afterwards:

  * `Reach.invariant`        — what holds initially and is kept by every guarded step holds
                               in every reached state;
  * `Reach.invariant_while`  — the same for `P s → I s`, when `P` can only be lost along a run;
  * `Reach.simulate`         — a state map under which every step becomes a step or nothing
                               at all carries runs to runs.

  `exec` runs a functional system on a list of actions, so that concrete runs are evaluated
  rather than constructed; `Reach.of_exec` turns such an evaluation into a reached state.
-/
import Mathlib.Data.Option.Basic

namespace Transition

variable {σ τ α β : Type*}

/-- A labelled transition system. -/
structure System (σ α : Type*) where
  /-- The states a run starts from. -/
  Init : σ → Prop
  /-- `Step s a s'`: taking `a` in `s` may lead to `s'`. -/
  Step : σ → α → σ → Prop

/-- The states reached by runs all of whose steps meet the guard `ok`. -/
inductive System.Reach (M : System σ α) (ok : σ → α → Prop) : σ → Prop
  | init {s : σ} : M.Init s → M.Reach ok s
  | step {s s' : σ} {a : α} : M.Reach ok s → ok s a → M.Step s a s' → M.Reach ok s'

namespace System

variable {M : System σ α} {N : System τ β} {ok ok' : σ → α → Prop}

/-- A weaker guard reaches at least as much. -/
theorem Reach.mono (hok : ∀ s a, ok s a → ok' s a) {s : σ} (h : M.Reach ok s) :
    M.Reach ok' s := by
  induction h with
  | init h0 => exact .init h0
  | step _ ha hs ih => exact .step ih (hok _ _ ha) hs

/-- What holds in every reached state may be added to the guard. -/
theorem Reach.strengthen {Q : σ → Prop} (hQ : ∀ s, M.Reach ok s → Q s) {s : σ} (h : M.Reach ok s) :
    M.Reach (fun s a => ok s a ∧ Q s) s := by
  induction h with
  | init h0 => exact .init h0
  | step hr ha hs ih => exact .step ih ⟨ha, hQ _ hr⟩ hs

/-- The invariant rule.  The step obligation may use that the state it starts from is reached. -/
theorem Reach.invariant {I : σ → Prop} (hinit : ∀ s, M.Init s → I s)
    (hstep : ∀ s a s', M.Reach ok s → I s → ok s a → M.Step s a s' → I s')
    {s : σ} (h : M.Reach ok s) : I s := by
  induction h with
  | init h0 => exact hinit _ h0
  | step hr ha hs ih => exact hstep _ _ _ hr ih ha hs

/-- The invariant rule for a property that is only claimed while `P` holds, where a step never
    establishes `P`: whatever satisfies `P` at the end satisfied it all along. -/
theorem Reach.invariant_while {P I : σ → Prop}
    (hback : ∀ s a s', M.Reach ok s → M.Step s a s' → P s' → P s)
    (hinit : ∀ s, M.Init s → P s → I s)
    (hstep : ∀ s a s', M.Reach ok s → P s' → I s → ok s a → M.Step s a s' → I s')
    {s : σ} (h : M.Reach ok s) : P s → I s := by
  induction h with
  | init h0 => exact hinit _ h0
  | step hr ha hs ih =>
    intro hP
    exact hstep _ _ _ hr hP (ih (hback _ _ _ hr hs hP)) ha hs

/-- What holds at the end of a run and can only be lost along it may be added to the guard. -/
theorem Reach.throughout {P : σ → Prop}
    (hback : ∀ s a s', M.Reach ok s → M.Step s a s' → P s' → P s)
    {s : σ} (h : M.Reach ok s) : P s → M.Reach (fun s a => ok s a ∧ P s) s := by
  refine h.invariant_while (I := fun s => M.Reach (fun s a => ok s a ∧ P s) s) hback ?_ ?_
  · exact fun s h0 _ => .init h0
  · exact fun s a s' hr hP hI ha hs => .step hI ⟨ha, hback s a s' hr hs hP⟩ hs

/-- The simulation rule: if `f` sends every guarded step to a guarded step of `N` or to no step,
    then it sends reached states to reached states. -/
theorem Reach.simulate {ok₂ : τ → β → Prop} (f : σ → τ)
    (hinit : ∀ s, M.Init s → N.Init (f s))
    (hstep : ∀ s a s', M.Reach ok s → N.Reach ok₂ (f s) → ok s a → M.Step s a s' →
      f s' = f s ∨ ∃ b, ok₂ (f s) b ∧ N.Step (f s) b (f s'))
    {s : σ} (h : M.Reach ok s) : N.Reach ok₂ (f s) := by
  induction h with
  | init h0 => exact .init (hinit _ h0)
  | step hr ha hs ih =>
    rcases hstep _ _ _ hr ih ha hs with heq | ⟨b, hb, hN⟩
    · rw [heq]; exact ih
    · exact .step ih hb hN

/-- The system of a partial step function. -/
def ofFun (init : σ → Prop) (step : σ → α → Option σ) : System σ α where
  Init := init
  Step s a s' := step s a = some s'

/-- A run continued from where another ended. -/
theorem Reach.trans {init : σ → Prop} {step : σ → α → Option σ} {s s' : σ}
    (h : (ofFun init step).Reach ok s) (h' : (ofFun (· = s) step).Reach ok s') :
    (ofFun init step).Reach ok s' := by
  induction h' with
  | init h0 =>
    cases h0
    exact h
  | step _ ha hs ih => exact .step ih ha hs

end System

/-! ## Running a functional system -/

/-- Take the actions one after the other, each only if the guard allows it. -/
def exec (ok : σ → α → Bool) (step : σ → α → Option σ) : σ → List α → Option σ
  | s, [] => some s
  | s, a :: as =>
    match ok s a, step s a with
    | true, some s' => exec ok step s' as
    | _, _ => none

theorem exec_cons {ok : σ → α → Bool} {step : σ → α → Option σ} {s s₁ : σ} {a : α} (as : List α)
    (ha : ok s a = true) (hs : step s a = some s₁) :
    exec ok step s (a :: as) = exec ok step s₁ as := by
  rw [exec, ha, hs]

theorem exec_append {ok : σ → α → Bool} {step : σ → α → Option σ} {s s₁ s₂ : σ} {as bs : List α}
    (h₁ : exec ok step s as = some s₁) (h₂ : exec ok step s₁ bs = some s₂) :
    exec ok step s (as ++ bs) = some s₂ := by
  induction as generalizing s with
  | nil =>
    obtain rfl : s = s₁ := by simpa [exec] using h₁
    exact h₂
  | cons a as ih =>
    rw [exec] at h₁
    rw [List.cons_append, exec]
    split at h₁
    · exact ih h₁
    · cases h₁

theorem exec_reach {init : σ → Prop} {step : σ → α → Option σ} {okb : σ → α → Bool}
    {ok : σ → α → Prop} (hok : ∀ s a, okb s a = true → ok s a) :
    ∀ (as : List α) (s s' : σ), (System.ofFun init step).Reach ok s →
      exec okb step s as = some s' → (System.ofFun init step).Reach ok s'
  | [], s, s', hr, h => by
      obtain rfl : s = s' := by simpa [exec] using h
      exact hr
  | a :: as, s, s', hr, h => by
      rw [exec] at h
      split at h
      · rename_i s₁ hb hs
        exact exec_reach hok as s₁ s' (.step hr (hok _ _ hb) hs) h
      · cases h

/-- An evaluated run and what was checked of its end. -/
theorem exec_any {ok : σ → α → Bool} {step : σ → α → Option σ} {s : σ} {as : List α} {P : σ → Bool}
    (h : (exec ok step s as).any P = true) : ∃ s', exec ok step s as = some s' ∧ P s' = true := by
  cases hs : exec ok step s as with
  | none => rw [hs] at h; cases h
  | some s' =>
    rw [hs] at h
    exact ⟨s', rfl, h⟩

/-- The variant rule: if every step of one kind lowers a measure and no other step raises it, a run
    takes no more steps of that kind than the measure allows. -/
theorem exec_variant {ok : σ → α → Bool} {step : σ → α → Option σ} {I : σ → Nat → Prop}
    (kind : α → Bool)
    (hstep : ∀ s a s' n, I s n → ok s a = true → step s a = some s' →
      ∃ m, I s' m ∧ m + (if kind a then 1 else 0) ≤ n) :
    ∀ (as : List α) {s s' : σ} {n : Nat}, I s n → exec ok step s as = some s' →
      ∃ m, I s' m ∧ m + as.countP kind ≤ n
  | [], s, s', n, hI, h => by
      obtain rfl : s = s' := by simpa [exec] using h
      exact ⟨n, hI, by simp⟩
  | a :: as, s, s', n, hI, h => by
      rw [exec] at h
      split at h
      · rename_i s₁ ha hs
        obtain ⟨m₁, hI₁, hm₁⟩ := hstep _ _ _ _ hI ha hs
        obtain ⟨m, hm, hle⟩ := exec_variant kind hstep as hI₁ h
        refine ⟨m, hm, ?_⟩
        rw [List.countP_cons]
        omega
      · cases h

/-- An evaluated run that ends in a state with the (checked) property `P` is a reached state with
    that property. -/
theorem System.Reach.of_exec (init : σ → Prop) {step : σ → α → Option σ} (okb : σ → α → Bool)
    {ok : σ → α → Prop} (hok : ∀ s a, okb s a = true → ok s a) {s₀ : σ} (h₀ : init s₀)
    (as : List α) (P : σ → Bool) (h : (exec okb step s₀ as).any P = true) :
    ∃ s, (System.ofFun init step).Reach ok s ∧ P s = true := by
  obtain ⟨s, hs, hP⟩ := exec_any h
  exact ⟨s, exec_reach hok as s₀ s (.init h₀) hs, hP⟩

end Transition
