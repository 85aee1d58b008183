import SigmaRust.Eval

/-! Laziness of `If`, `And` and `Or`. `If::eval` runs exactly the branch its condition selects,
from the context the condition leaves; `And` with a false left operand and `Or` with a true one
return without calling the right operand's closure. So the operand not taken changes neither the
result nor the context an evaluation leaves, the cost accumulator included, whatever it would do:
fail, panic, or exceed the ceiling. The node-level facts are stated for arbitrary operand
computations, and the law for expression trees follows from them. -/

namespace SigmaRust

variable (costs : Costs)

namespace BinOp

variable {left rv : EvalM Value} {s s₁ s₂ : EvalContext}

/-- A false left operand decides `And` without running the right operand. -/
theorem eval_and_false (hcharge : addCost costs.eqConstSize s = .ok () s₁)
    (hleft : left s₁ = .ok (.boolean false) s₂) :
    eval costs (.relation .and) left rv s = .ok (.boolean false) s₂ := by
  rw [eval_of_left_ok costs left rv s s₁ s₂ _ _ hcharge hleft]
  simp [evalRelation, liftExtract, Value.tryExtractBool]

/-- A true left operand decides `Or` without running the right operand. -/
theorem eval_or_true (hcharge : addCost costs.eqConstSize s = .ok () s₁)
    (hleft : left s₁ = .ok (.boolean true) s₂) :
    eval costs (.relation .or) left rv s = .ok (.boolean true) s₂ := by
  rw [eval_of_left_ok costs left rv s s₁ s₂ _ _ hcharge hleft]
  simp [evalRelation, liftExtract, Value.tryExtractBool]

end BinOp

/-- The untaken operand of `If`, `And` and `Or` never influences the result or the context left:
`If` returns what the selected branch returns from the context the condition leaves, and `And`
(`Or`) whose left operand evaluates to `false` (`true`), past the node's charge, returns it. -/
theorem untaken_operand_irrelevant :
    (∀ (condition trueBranch falseBranch : Expr) (s s₁ : EvalContext),
      condition.eval costs s = .ok (.boolean true) s₁ →
      (Expr.ifOp condition trueBranch falseBranch).eval costs s = trueBranch.eval costs s₁) ∧
    (∀ (condition trueBranch falseBranch : Expr) (s s₁ : EvalContext),
      condition.eval costs s = .ok (.boolean false) s₁ →
      (Expr.ifOp condition trueBranch falseBranch).eval costs s = falseBranch.eval costs s₁) ∧
    (∀ (left right : Expr) (s s₁ s₂ : EvalContext), addCost costs.eqConstSize s = .ok () s₁ →
      left.eval costs s₁ = .ok (.boolean false) s₂ →
      (Expr.binOp (.relation .and) left right).eval costs s = .ok (.boolean false) s₂) ∧
    (∀ (left right : Expr) (s s₁ s₂ : EvalContext), addCost costs.eqConstSize s = .ok () s₁ →
      left.eval costs s₁ = .ok (.boolean true) s₂ →
      (Expr.binOp (.relation .or) left right).eval costs s = .ok (.boolean true) s₂) :=
  ⟨fun _ _ _ _ _ h => If.eval_of_condition h, fun _ _ _ _ _ h => If.eval_of_condition h,
    fun _ _ _ _ _ hc hl => BinOp.eval_and_false costs hc hl,
    fun _ _ _ _ _ hc hl => BinOp.eval_or_true costs hc hl⟩

end SigmaRust
