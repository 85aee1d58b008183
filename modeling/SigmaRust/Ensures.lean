import SigmaRust.Eval

/-! A total-correctness program logic for evaluations. `Ensures post fail m` says that `m`, run
from any context, ends in `Ok` with a value satisfying `post`, or stops short with an outcome
satisfying `fail`. Its rules follow the combinators the evaluator is written with (`pure`,
`throw`, `>>=`, `if`, the lifts of `?` and the cost charge), so that a property of every
evaluation is proved once per node kind, by induction on the tree, without unfolding the state
transformer again. -/

namespace SigmaRust

/-- `m` ends, from every context, in `Ok` with a value satisfying `post`, or stops short with an
outcome satisfying `fail`. -/
def Ensures {α : Type} (post : α → Prop) (fail : Abort → Prop) (m : EvalM α) : Prop :=
  ∀ s, match m s with
    | .ok a _ => post a
    | .error e _ => fail e

/-- An outcome that is an `Err`, not a panic. -/
def Abort.IsError (a : Abort) : Prop := ∃ e, a = .error e

namespace Ensures

variable {α β : Type} {post : α → Prop} {fail : Abort → Prop}

theorem of_pure {a : α} (h : post a) : Ensures post fail (pure a) := fun _ => h

theorem of_throw {e : Abort} (h : fail e) : Ensures post fail (throw e) := fun _ => h

theorem bind {P : α → Prop} {Q : β → Prop} {m : EvalM α} {f : α → EvalM β}
    (hm : Ensures P fail m) (hf : ∀ a, P a → Ensures Q fail (f a)) : Ensures Q fail (m >>= f) := by
  intro s
  have h := hm s
  cases hs : m s with
  | ok a s' =>
    rw [EvalM.bind_of_ok hs]
    rw [hs] at h
    exact hf a h s'
  | error e s' =>
    rw [EvalM.bind_of_error hs]
    rw [hs] at h
    exact h

theorem ite {c : Prop} [Decidable c] {t e : EvalM α} (ht : c → Ensures post fail t)
    (he : ¬ c → Ensures post fail e) : Ensures post fail (if c then t else e) := by
  by_cases hc : c
  · rw [if_pos hc]; exact ht hc
  · rw [if_neg hc]; exact he hc

theorem mono {post' : α → Prop} {fail' : Abort → Prop} {m : EvalM α} (h : Ensures post fail m)
    (hp : ∀ a, post a → post' a) (hf : ∀ e, fail e → fail' e) : Ensures post' fail' m := by
  intro s
  have h := h s
  split at h
  · exact hp _ h
  · exact hf _ h

theorem of_liftExcept {ε : Type} {g : ε → Abort} {r : Except ε α}
    (hok : ∀ a, r = .ok a → post a) (herr : ∀ e, r = .error e → fail (g e)) :
    Ensures post fail (liftExcept g r) := by
  cases r with
  | ok a => exact of_pure (hok a rfl)
  | error e => exact of_throw (herr e rfl)

/-- `?` on a `try_extract_into` that succeeds. -/
theorem liftExtract_ok {a : α} : Ensures (· = a) fail (liftExtract (.ok a)) :=
  of_pure rfl

/-- A cost charge succeeds or stops with the cost-limit error. -/
theorem addCost (cost : Nat) (h : fail (.error (.costError .limitExceeded))) :
    Ensures (fun _ => True) fail (SigmaRust.addCost cost) := by
  intro s
  unfold SigmaRust.addCost
  cases CostAccumulator.add cost s.costAccum with
  | ok _ _ => trivial
  | error e _ => cases e; exact h

/-- A `BinOp` evaluation: the node's charge stops with the cost-limit error, or the left operand
runs and then the kind's arm. -/
theorem binOp_eval {costs : Costs} {kind : BinOpKind} {left rv : EvalM Value}
    {P post : Value → Prop} (hcost : fail (.error (.costError .limitExceeded))) (hleft : Ensures P fail left)
    (hkind : ∀ lv, P lv → Ensures post fail
      (match kind with
        | .relation op => BinOp.evalRelation op lv rv
        | .arith op => BinOp.evalArith op lv rv)) :
    Ensures post fail (BinOp.eval costs kind left rv) :=
  bind (addCost _ hcost) fun _ _ => bind hleft hkind

/-- An `If` evaluation: the condition runs, and a boolean selects a branch. -/
theorem if_eval {condition trueBranch falseBranch : EvalM Value} {P post : Value → Prop}
    (hcond : Ensures P fail condition)
    (hext : ∀ v, P v → ∀ e, v.tryExtractBool = .error e → fail (.error (.tryExtractFrom e)))
    (ht : Ensures post fail trueBranch) (hf : Ensures post fail falseBranch) :
    Ensures post fail (If.eval condition trueBranch falseBranch) :=
  bind hcond fun v hv => bind (P := fun _ => True)
    (of_liftExcept (fun _ _ => trivial) (hext v hv)) fun _ _ => ite (fun _ => ht) (fun _ => hf)

end Ensures

/-- What `Ensures` gives at one context. -/
theorem Ensures.apply {α : Type} {post : α → Prop} {fail : Abort → Prop} {m : EvalM α}
    (h : Ensures post fail m) (s : EvalContext) :
    (∃ a s', m s = .ok a s' ∧ post a) ∨ (∃ e s', m s = .error e s' ∧ fail e) := by
  have h := h s
  split at h <;> rename_i hs
  · exact .inl ⟨_, _, hs, h⟩
  · exact .inr ⟨_, _, hs, h⟩

end SigmaRust
