/-
  Systems side by side, joined by an environment.

  A `Net ν σ ε` is a family of systems of one kind, `node v`, and an environment between them.  A
  `Wiring` says how a node steps on its own, what the environment makes of such a step, or that it
  does not admit it, and how the environment moves by itself.  The nodes share nothing: whatever
  passes from one to another goes through the environment.

  Two rules carry what is known of one system over to the whole:

  * `reach_node`      - a node of a run of the net has made a run of its own, under every guard
                        the net's guard and the environment enforce;
  * `local_invariant` - what relates one node to the environment is proved from three kinds of
                        steps: the node's own, another node's, and the environment's.
-/
import OsTransport.Lib.Transition
import Mathlib.Logic.Function.Basic

namespace Network

open Transition

variable {ν σ ε α β : Type*}

/-- A family of nodes and what lies between them. -/
structure Net (ν σ ε : Type*) where
  node : ν → σ
  env : ε

/-- A step of one node, or of the environment. -/
inductive Act (ν α β : Type*)
  | node (v : ν) (a : α)
  | env (b : β)
  deriving DecidableEq

/-- How nodes and environment act on each other. -/
structure Wiring (ν σ ε α β : Type*) where
  /-- A node on its own. -/
  step : σ → α → Option σ
  /-- What the environment makes of a step of node `v`; `none` if it does not admit it. -/
  note : ε → ν → σ → α → σ → Option ε
  /-- The environment on its own. -/
  move : ε → β → Option ε

namespace Wiring

variable [DecidableEq ν] (W : Wiring ν σ ε α β)

/-- One step of the net. -/
def net (n : Net ν σ ε) : Act ν α β → Option (Net ν σ ε)
  | .node v a =>
    (W.step (n.node v) a).bind fun s =>
      (W.note n.env v (n.node v) a s).map fun env => ⟨Function.update n.node v s, env⟩
  | .env b => (W.move n.env b).map fun env => ⟨n.node, env⟩

/-- All runs of the net from these nodes in this environment. -/
def system (init : ν → σ) (env : ε) : System (Net ν σ ε) (Act ν α β) :=
  .ofFun (· = ⟨init, env⟩) W.net

variable {W} {n n' : Net ν σ ε}

theorem net_node {v : ν} {a : α} (h : W.net n (.node v a) = some n') :
    ∃ s env, W.step (n.node v) a = some s ∧ W.note n.env v (n.node v) a s = some env ∧
      n' = ⟨Function.update n.node v s, env⟩ := by
  obtain ⟨s, hs, h⟩ := Option.bind_eq_some_iff.mp h
  obtain ⟨env, henv, rfl⟩ := Option.map_eq_some_iff.mp h
  exact ⟨s, env, hs, henv, rfl⟩

theorem net_env {b : β} (h : W.net n (.env b) = some n') :
    ∃ env, W.move n.env b = some env ∧ n' = ⟨n.node, env⟩ := by
  obtain ⟨env, henv, rfl⟩ := Option.map_eq_some_iff.mp h
  exact ⟨env, henv, rfl⟩

section Rules

variable {init : ν → σ} {env : ε} {ok : Net ν σ ε → Act ν α β → Prop}

/-- The projection rule. -/
theorem reach_node {okNode : σ → α → Prop} (v : ν)
    (hok : ∀ n a s env', (W.system init env).Reach ok n → ok n (.node v a) →
      W.step (n.node v) a = some s → W.note n.env v (n.node v) a s = some env' →
      okNode (n.node v) a)
    (h : (W.system init env).Reach ok n) :
    (System.ofFun (· = init v) W.step).Reach okNode (n.node v) := by
  refine System.Reach.simulate (fun n => n.node v) ?_ ?_ h
  · rintro n rfl
    rfl
  · intro n a n' hr _ ha hs
    cases a with
    | node w a =>
      obtain ⟨s, env', hstep, hnote, rfl⟩ := net_node hs
      by_cases hw : v = w
      · obtain rfl := hw
        refine .inr ⟨a, hok n a s env' hr ha hstep hnote, ?_⟩
        show W.step (n.node v) a = some (Function.update n.node v s v)
        rw [Function.update_self]
        exact hstep
      · exact .inl (Function.update_of_ne hw s n.node)
    | env b =>
      obtain ⟨env', -, rfl⟩ := net_env hs
      exact .inl rfl

/-- The invariant rule for one node and the environment. -/
theorem local_invariant {I : σ → ε → Prop} (v : ν) (hinit : I (init v) env)
    (hown : ∀ n a s env', (W.system init env).Reach ok n → I (n.node v) n.env → ok n (.node v a) →
      W.step (n.node v) a = some s → W.note n.env v (n.node v) a s = some env' → I s env')
    (hother : ∀ n w a s env', (W.system init env).Reach ok n → I (n.node v) n.env → w ≠ v →
      ok n (.node w a) → W.step (n.node w) a = some s → W.note n.env w (n.node w) a s = some env' →
      I (n.node v) env')
    (henv : ∀ n b env', (W.system init env).Reach ok n → I (n.node v) n.env → ok n (.env b) →
      W.move n.env b = some env' → I (n.node v) env')
    (h : (W.system init env).Reach ok n) : I (n.node v) n.env := by
  refine System.Reach.invariant (I := fun n => I (n.node v) n.env) ?_ ?_ h
  · rintro n rfl
    exact hinit
  · intro n a n' hr hI ha hs
    cases a with
    | node w a =>
      obtain ⟨s, env', hstep, hnote, rfl⟩ := net_node hs
      by_cases hw : v = w
      · obtain rfl := hw
        show I (Function.update n.node v s v) env'
        rw [Function.update_self]
        exact hown n a s env' hr hI ha hstep hnote
      · show I (Function.update n.node w s v) env'
        rw [Function.update_of_ne hw]
        exact hother n w a s env' hr hI (Ne.symm hw) ha hstep hnote
    | env b =>
      obtain ⟨env', hmove, rfl⟩ := net_env hs
      exact henv n b env' hr hI ha hmove

end Rules

end Wiring

end Network
