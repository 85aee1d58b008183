import SigmaRust.Value

/-! The evaluator of the `Const`, `BinOp` and `If` nodes of the ErgoTree IR, as `BinOp::eval`
(`ergotree-ir/src/mir/bin_op.rs`) and `If::eval` (`ergo-lib/src/ast/if_op.rs`) compute it.

`eval(&self, env, ctx: &mut EvalContext) -> Result<Value, EvalError>` is a state transformer
`EvalM` over the evaluation context, which keeps the context an evaluation leaves also when it
fails, as the mutable reference does. A `todo!()` is a panic, which unwinds through every caller:
it is the `Abort.panic` outcome, next to the `Err` outcomes. The right operand of a `BinOp` is
passed as the computation `rv`, as the source passes the closure `|| self.right.eval(env, ctx)`,
and it runs only where the source calls the closure, which is what makes `And` and `Or` lazy.
None of these nodes reads the environment or the blockchain context, so neither is modelled. -/

namespace SigmaRust

/-- `ArithOp`. -/
inductive ArithOp where
  | plus
  | minus
  | multiply
  | divide
  | max
  | min
deriving DecidableEq

/-- `RelationOp`. -/
inductive RelationOp where
  | eq
  | neq
  | ge
  | gt
  | le
  | lt
  | and
  | or
deriving DecidableEq

/-- `BinOpKind`. -/
inductive BinOpKind where
  | arith (op : ArithOp)
  | relation (op : RelationOp)
deriving DecidableEq

/-- `Expr`, with the node kinds whose evaluation is in the sources. -/
inductive Expr where
  | const (c : Constant)
  | binOp (kind : BinOpKind) (left right : Expr)
  | ifOp (condition trueBranch falseBranch : Expr)

/-- `Expr::tpe`, with `BinOp::tpe` (`SBoolean` for a relation, the left operand's type for
arithmetic) and `If::tpe` (the true branch's type). -/
def Expr.tpe : Expr → SType
  | const c => c.tpe
  | binOp (.relation _) _ _ => .sBoolean
  | binOp (.arith _) left _ => left.tpe
  | ifOp _ trueBranch _ => trueBranch.tpe

/-- `CostError`. -/
inductive CostError where
  | limitExceeded

/-- Modelled from the spec: `CostAccumulator` (not in the sources), "a `cost_accum` that adds a
per-node cost before recursion; exceeding a configured ceiling yields `CostExceeded`". -/
structure CostAccumulator where
  accum : Nat
  limit : Option Nat

/-- Modelled from the spec: `CostAccumulator::add` adds the cost, then fails if the sum exceeds the
ceiling, when one is configured. -/
def CostAccumulator.add (cost : Nat) : EStateM CostError CostAccumulator Unit := fun acc =>
  let acc' := { acc with accum := acc.accum + cost }
  match acc.limit with
  | some limit => if limit < acc'.accum then .error .limitExceeded acc' else .ok () acc'
  | none => .ok () acc'

/-- The cost table `Costs` (not in the sources) as far as `BinOp::eval` reads it: it charges
`Costs::DEFAULT.eq_const_size` for every binary operation. -/
structure Costs where
  eqConstSize : Nat

/-- `EvalContext`, as far as these nodes use it: its cost accumulator. -/
structure EvalContext where
  costAccum : CostAccumulator

/-- `EvalError`, with the variants these nodes raise. -/
inductive EvalError where
  | arithmeticException (msg : String)
  | unexpectedValue (msg : String)
  | tryExtractFrom (e : TryExtractFromError)
  | costError (e : CostError)

/-- How an evaluation stops short: an `Err` returned through `?`, or a panic. -/
inductive Abort where
  | error (e : EvalError)
  | panic (msg : String)

/-- The panic of `todo!()`. -/
def Abort.todo : Abort := .panic "not yet implemented"

/-- An evaluation: a state transformer of the evaluation context that ends in a value or stops
short, leaving the context as the code leaves it in both cases. -/
abbrev EvalM := EStateM Abort EvalContext

/-- `?` on a `Result` computed without the context. -/
def liftExcept {ε α : Type} (f : ε → Abort) : Except ε α → EvalM α
  | .ok a => pure a
  | .error e => throw (f e)

/-- `?` on `try_extract_into`, whose error converts to `EvalError::TryExtractFrom`. -/
def liftExtract {α : Type} : Except TryExtractFromError α → EvalM α :=
  liftExcept (.error ∘ .tryExtractFrom)

/-- `ctx.cost_accum.add(cost)?`. -/
def addCost (cost : Nat) : EvalM Unit := fun ctx =>
  match CostAccumulator.add cost ctx.costAccum with
  | .ok () acc => .ok () ⟨acc⟩
  | .error e acc => .error (.error (.costError e)) ⟨acc⟩

/-- `eval_plus`, `eval_minus`, `eval_mul` and `eval_div`, which differ only in the checked
operation and its symbol and outcome in the error message: read the right operand as the left
one's Rust type, then apply the operation; `None` is an `ArithmeticException`. -/
def evalChecked (op : ∀ {bits : Nat}, SignedInt bits → SignedInt bits → Option (SignedInt bits))
    (symbol outcome : String) (w : NumWidth) (lvRaw : SignedInt w.bits) (rv : Value) :
    Except EvalError Value := do
  let rvRaw ← (w.tryExtract rv).mapError .tryExtractFrom
  match op lvRaw rvRaw with
  | some x => pure (w.toValue x)
  | none => throw (.arithmeticException s!"({lvRaw}) {symbol} ({rvRaw}) resulted in {outcome}")

/-- `eval_plus`. -/
def evalPlus := evalChecked SignedInt.checkedAdd "+" "overflow"

/-- `eval_minus`. -/
def evalMinus := evalChecked SignedInt.checkedSub "-" "overflow"

/-- `eval_mul`. -/
def evalMul := evalChecked SignedInt.checkedMul "*" "overflow"

/-- `eval_div`. -/
def evalDiv := evalChecked SignedInt.checkedDiv "/" "exception"

/-- `eval_max` and `eval_min`: read the right operand as the left one's Rust type, then apply the
total operation. -/
def evalTotal (op : ∀ {bits : Nat}, SignedInt bits → SignedInt bits → SignedInt bits)
    (w : NumWidth) (lvRaw : SignedInt w.bits) (rv : Value) : Except EvalError Value := do
  let rvRaw ← (w.tryExtract rv).mapError .tryExtractFrom
  pure (w.toValue (op lvRaw rvRaw))

/-- `eval_max`. -/
def evalMax := evalTotal SignedInt.max

/-- `eval_min`. -/
def evalMin := evalTotal SignedInt.min

/-- The function an arithmetic operator's arm applies to `lv_raw` and `rv()?`. -/
def ArithOp.evalFn : ArithOp → (w : NumWidth) → SignedInt w.bits → Value → Except EvalError Value
  | .plus => evalPlus
  | .minus => evalMinus
  | .multiply => evalMul
  | .divide => evalDiv
  | .max => evalMax
  | .min => evalMin

/-- The arms of `match lv` in `BinOp::eval` and in `eval_ge` and its siblings: an integer of one of
the four widths, `BigInt`, or any other value. -/
inductive NumView where
  | num (w : NumWidth) (x : SignedInt w.bits)
  | bigInt
  | other

/-- The arm of `match lv` a value takes. -/
def Value.numView : Value → NumView
  | .byte x => .num .byte x
  | .short x => .num .short x
  | .int x => .num .int x
  | .long x => .num .long x
  | .bigInt => .bigInt
  | _ => .other

/-- The error of the last arm of every `match lv`. -/
def unexpectedLeft (lv : Value) : Abort :=
  .error (.unexpectedValue s!"expected BinOp::left to be numeric value, got {lv.debug}")

/-- `eval_ge`, `eval_gt`, `eval_lt` and `eval_le`, which differ only in the comparison: read the
right operand as the left one's Rust type and compare; `BigInt` is a `todo!()`. -/
def evalCompare (cmp : Int → Int → Bool) (lv rv : Value) : Except Abort Value :=
  match lv.numView with
  | .num w x => do
    let y ← (w.tryExtract rv).mapError (.error ∘ .tryExtractFrom)
    pure (.boolean (cmp x.val y.val))
  | .bigInt => throw Abort.todo
  | .other => throw (unexpectedLeft lv)

/-- `eval_ge`. -/
def evalGe := evalCompare fun l r => decide (l ≥ r)

/-- `eval_gt`. -/
def evalGt := evalCompare fun l r => decide (l > r)

/-- `eval_lt`. -/
def evalLt := evalCompare fun l r => decide (l < r)

/-- `eval_le`. -/
def evalLe := evalCompare fun l r => decide (l ≤ r)

namespace BinOp

/-- The `BinOpKind::Relation` arm of `BinOp::eval`. `And` and `Or` run `rv` only when the left
operand does not decide the result. -/
def evalRelation (op : RelationOp) (lv : Value) (rv : EvalM Value) : EvalM Value :=
  match op with
  | .eq => do return .boolean (lv == (← rv))
  | .neq => do return .boolean (lv != (← rv))
  | .gt => do liftExcept id (evalGt lv (← rv))
  | .lt => do liftExcept id (evalLt lv (← rv))
  | .ge => do liftExcept id (evalGe lv (← rv))
  | .le => do liftExcept id (evalLe lv (← rv))
  | .and => do
    if ← liftExtract lv.tryExtractBool then return .boolean (← liftExtract (← rv).tryExtractBool)
    else return .boolean false
  | .or => do
    if !(← liftExtract lv.tryExtractBool) then
      return .boolean (← liftExtract (← rv).tryExtractBool)
    else return .boolean true

/-- The `BinOpKind::Arith` arm of `BinOp::eval`: every operator matches `lv` the same way, and
runs `rv` only in the integer arms. -/
def evalArith (op : ArithOp) (lv : Value) (rv : EvalM Value) : EvalM Value :=
  match lv.numView with
  | .num w x => do liftExcept .error (op.evalFn w x (← rv))
  | .bigInt => throw Abort.todo
  | .other => throw (unexpectedLeft lv)

/-- `BinOp::eval`: charge the node, evaluate the left operand, then the kind's arm. -/
def eval (costs : Costs) (kind : BinOpKind) (left rv : EvalM Value) : EvalM Value := do
  addCost costs.eqConstSize
  let lv ← left
  match kind with
  | .relation op => evalRelation op lv rv
  | .arith op => evalArith op lv rv

end BinOp

/-- `If::eval`: evaluate the condition, then exactly one branch. -/
def If.eval (condition trueBranch falseBranch : EvalM Value) : EvalM Value := do
  let conditionV ← condition
  if ← liftExtract conditionV.tryExtractBool then trueBranch else falseBranch

/-- Modelled from the spec: `Expr::eval` (not in the sources) dispatches on the node kind; a
constant is its value and charges nothing. -/
def Expr.eval (costs : Costs) : Expr → EvalM Value
  | .const c => pure c.v
  | .binOp kind left right => BinOp.eval costs kind (left.eval costs) (right.eval costs)
  | .ifOp condition trueBranch falseBranch =>
    If.eval (condition.eval costs) (trueBranch.eval costs) (falseBranch.eval costs)

namespace EvalM

variable {α β : Type}

theorem bind_of_ok {x : EvalM α} {f : α → EvalM β} {s s' : EvalContext} {a : α}
    (h : x s = .ok a s') : (x >>= f) s = f a s' := by
  simp only [bind, EStateM.bind, h]

theorem bind_of_error {x : EvalM α} {f : α → EvalM β} {s s' : EvalContext} {e : Abort}
    (h : x s = .error e s') : (x >>= f) s = .error e s' := by
  simp only [bind, EStateM.bind, h]

@[simp] theorem pure_apply (a : α) (s : EvalContext) : (pure a : EvalM α) s = .ok a s := rfl

@[simp] theorem throw_apply (e : Abort) (s : EvalContext) : (throw e : EvalM α) s = .error e s :=
  rfl

end EvalM

@[simp] theorem liftExcept_ok {ε α : Type} (f : ε → Abort) (a : α) :
    liftExcept f (.ok a : Except ε α) = pure a := rfl

@[simp] theorem liftExcept_error {ε α : Type} (f : ε → Abort) (e : ε) :
    liftExcept f (.error e : Except ε α) = throw (f e) := rfl

@[simp] theorem liftExtract_ok {α : Type} (a : α) :
    liftExtract (.ok a : Except TryExtractFromError α) = pure a := rfl

@[simp] theorem Value.numView_toValue (w : NumWidth) (x : SignedInt w.bits) :
    (w.toValue x).numView = .num w x := by
  cases w <;> rfl

namespace BinOp

variable (costs : Costs) (left rv : EvalM Value) (s s₁ s₂ : EvalContext)

/-- `BinOp::eval` past a charge that fits and a left operand that succeeds: the kind's arm. -/
theorem eval_of_left_ok (kind : BinOpKind) (lv : Value)
    (hcharge : addCost costs.eqConstSize s = .ok () s₁) (hleft : left s₁ = .ok lv s₂) :
    eval costs kind left rv s =
      (match kind with
        | .relation op => evalRelation op lv rv
        | .arith op => evalArith op lv rv) s₂ := by
  simp only [eval, EvalM.bind_of_ok hcharge, EvalM.bind_of_ok hleft]

end BinOp

/-- `If::eval` past a condition that evaluates to a boolean: the branch it selects. -/
theorem If.eval_of_condition {condition trueBranch falseBranch : EvalM Value}
    {s s₁ : EvalContext} {b : Bool} (h : condition s = .ok (.boolean b) s₁) :
    If.eval condition trueBranch falseBranch s = (if b then trueBranch else falseBranch) s₁ := by
  simp only [If.eval, EvalM.bind_of_ok h, Value.tryExtractBool_boolean, liftExtract_ok]
  cases b <;> rfl

end SigmaRust
