import SigmaRust.Arithmetic
import SigmaRust.Ensures

/-! Where evaluation panics. The arithmetic arms of `BinOp::eval` and `eval_ge`, `eval_gt`,
`eval_lt` and `eval_le` match `Value::BigInt => todo!()`: a `BigInt` left operand panics under an
arithmetic operator before the right operand runs, and under an ordering operator once the right
operand has run. These are the only panics: every other `BinOp` outcome is `Ok` or a classified
`EvalError`, a `BinOp` value is never a `BigInt`, and so a tree in which no constant holds a
`BigInt` never panics. -/

namespace SigmaRust

/-- No constant of the tree holds `Value::BigInt`. -/
def Expr.NoBigIntConst : Expr → Prop
  | .const c => c.v ≠ .bigInt
  | .binOp _ left right => left.NoBigIntConst ∧ right.NoBigIntConst
  | .ifOp condition trueBranch falseBranch =>
    condition.NoBigIntConst ∧ trueBranch.NoBigIntConst ∧ falseBranch.NoBigIntConst

/-- The relation operators without a `todo!()` arm. -/
def BinOpKind.IsTotal (kind : BinOpKind) : Prop :=
  kind = .relation .eq ∨ kind = .relation .neq ∨ kind = .relation .and ∨ kind = .relation .or

theorem Value.boolean_ne_bigInt (b : Bool) : Value.boolean b ≠ .bigInt := nofun

theorem NumWidth.toValue_ne_bigInt (w : NumWidth) (x : SignedInt w.bits) : w.toValue x ≠ .bigInt := by
  cases w <;> nofun

variable (costs : Costs)

namespace BinOp

variable {left rv : EvalM Value} {P Q : Value → Prop}

/-- `And` and `Or` read booleans: their outcomes are a boolean or an `Err`. -/
theorem ensures_logical {op : RelationOp} (hop : op = .and ∨ op = .or) (lv : Value)
    (hrv : Ensures Q Abort.IsError rv) :
    Ensures (· ≠ Value.bigInt) Abort.IsError (evalRelation op lv rv) := by
  have hread : ∀ v : Value, Ensures (fun _ => True) Abort.IsError (liftExtract v.tryExtractBool) :=
    fun _ => Ensures.of_liftExcept (fun _ _ => trivial) fun _ _ => ⟨_, rfl⟩
  have hright : Ensures (· ≠ Value.bigInt) Abort.IsError
      (rv >>= fun v : Value => liftExtract v.tryExtractBool >>= fun b : Bool => pure (.boolean b)) :=
    Ensures.bind hrv fun v _ => Ensures.bind (hread v) fun _ _ => Ensures.of_pure (Value.boolean_ne_bigInt _)
  rcases hop with rfl | rfl <;>
    exact Ensures.bind (hread lv) fun _ _ => Ensures.ite (fun _ => hright)
      (fun _ => Ensures.of_pure (Value.boolean_ne_bigInt _))

/-- A `BinOp` panics only where its operands panic, or at a `todo!()` arm: its outcome is a value
other than `BigInt` or an `Err` when its operands never panic and, unless the operator is `Eq`,
`NEq`, `And` or `Or`, its left operand never evaluates to `BigInt`. -/
theorem ensures_no_panic (kind : BinOpKind) (hleft : Ensures P Abort.IsError left)
    (hrv : Ensures Q Abort.IsError rv) (hbig : ∀ v, P v → v ≠ .bigInt ∨ kind.IsTotal) :
    Ensures (· ≠ Value.bigInt) Abort.IsError (eval costs kind left rv) := by
  refine Ensures.binOp_eval ⟨_, rfl⟩ hleft fun lv hlv => ?_
  cases kind with
  | relation op =>
    cases op
    case eq | neq => exact Ensures.bind hrv fun _ _ => Ensures.of_pure (Value.boolean_ne_bigInt _)
    case and => exact ensures_logical (.inl rfl) lv hrv
    case or => exact ensures_logical (.inr rfl) lv hrv
    all_goals
      dsimp only
      rw [evalRelation_ordering (by decide)]
      refine Ensures.bind hrv fun v _ => ?_
      rcases evalCompare_cases _ lv v with ⟨b, h⟩ | ⟨e, h⟩ | ⟨rfl, -⟩
      · rw [h]; exact Ensures.of_pure (Value.boolean_ne_bigInt _)
      · rw [h]; exact Ensures.of_throw ⟨e, rfl⟩
      · rcases hbig _ hlv with h | h
        · exact absurd rfl h
        · simp [BinOpKind.IsTotal] at h
  | arith op =>
    dsimp only
    unfold evalArith
    split
    · rename_i w x _
      refine Ensures.bind hrv fun v _ => ?_
      rcases op.evalFn_cases w x v with ⟨z, h⟩ | ⟨e, h⟩
      · rw [h]; exact Ensures.of_pure (w.toValue_ne_bigInt z)
      · rw [h]; exact Ensures.of_throw ⟨e, rfl⟩
    · rcases hbig _ hlv with h | h
      · exact absurd (Value.numView_eq_bigInt ‹_›) h
      · simp [BinOpKind.IsTotal] at h
    · exact Ensures.of_throw ⟨_, rfl⟩

/-- An arithmetic operator with a `BigInt` left operand panics, before its right operand runs. -/
theorem eval_arith_bigInt (op : ArithOp) {s s₁ s₂ : EvalContext}
    (hcharge : addCost costs.eqConstSize s = .ok () s₁) (hleft : left s₁ = .ok .bigInt s₂) :
    eval costs (.arith op) left rv s = .error Abort.todo s₂ := by
  rw [eval_of_left_ok costs left rv s s₁ s₂ _ _ hcharge hleft]
  rfl

/-- An ordering operator with a `BigInt` left operand panics, once its right operand has run. -/
theorem eval_ordering_bigInt {op : RelationOp} (hop : op ∈ [RelationOp.gt, .ge, .lt, .le])
    {s s₁ s₂ s₃ : EvalContext} {v : Value} (hcharge : addCost costs.eqConstSize s = .ok () s₁)
    (hleft : left s₁ = .ok .bigInt s₂) (hright : rv s₂ = .ok v s₃) :
    eval costs (.relation op) left rv s = .error Abort.todo s₃ := by
  rw [eval_of_left_ok costs left rv s s₁ s₂ _ _ hcharge hleft]
  dsimp only
  rw [evalRelation_ordering hop, EvalM.bind_of_ok hright]
  rfl

end BinOp

/-- A tree in which no constant holds `BigInt` never panics, and never evaluates to a `BigInt`. -/
theorem ensures_no_panic_of_noBigIntConst {e : Expr} (he : e.NoBigIntConst) :
    Ensures (· ≠ Value.bigInt) Abort.IsError (e.eval costs) := by
  induction e with
  | const c => exact Ensures.of_pure he
  | binOp kind left right ihl ihr =>
    exact BinOp.ensures_no_panic costs kind (ihl he.1) (ihr he.2) fun _ h => .inl h
  | ifOp condition trueBranch falseBranch ihc iht ihf =>
    exact Ensures.if_eval (ihc he.1) (fun _ _ _ _ => ⟨_, rfl⟩) (iht he.2.1) (ihf he.2.2)

/-- `BigInt + BigInt` and `BigInt > BigInt` reach `todo!()` and panic. -/
theorem bigInt_operands_panic :
    (Expr.binOp (.arith .plus) (.const ⟨.sBigInt, .bigInt⟩) (.const ⟨.sBigInt, .bigInt⟩)).eval ⟨1⟩
      ⟨⟨0, none⟩⟩ = .error Abort.todo ⟨⟨1, none⟩⟩ ∧
    (Expr.binOp (.relation .gt) (.const ⟨.sBigInt, .bigInt⟩) (.const ⟨.sBigInt, .bigInt⟩)).eval ⟨1⟩
      ⟨⟨0, none⟩⟩ = .error Abort.todo ⟨⟨1, none⟩⟩ :=
  ⟨rfl, rfl⟩

/-- Evaluation panics only at the `todo!()` arms: a tree in which no constant holds `BigInt` ends in
`Ok` or an `Err`; a `BinOp` whose operands do not panic ends in `Ok` or an `Err` unless its operator
is arithmetic or an ordering and its left operand evaluates to `BigInt`; and there it panics, for
an ordering once the right operand has returned. -/
theorem panics_only_at_bigInt_todo :
    (∀ e : Expr, e.NoBigIntConst → ∀ s : EvalContext,
      (∃ v s', e.eval costs s = .ok v s') ∨ (∃ err s', e.eval costs s = .error (.error err) s')) ∧
    (∀ (kind : BinOpKind) (left rv : EvalM Value) (P Q : Value → Prop),
      Ensures P Abort.IsError left → Ensures Q Abort.IsError rv →
      (∀ v, P v → v ≠ .bigInt ∨ kind.IsTotal) →
      Ensures (fun _ => True) Abort.IsError (BinOp.eval costs kind left rv)) ∧
    (∀ (op : ArithOp) (left right : Expr) (s s₁ s₂ : EvalContext),
      addCost costs.eqConstSize s = .ok () s₁ → left.eval costs s₁ = .ok .bigInt s₂ →
      (Expr.binOp (.arith op) left right).eval costs s = .error Abort.todo s₂) ∧
    (∀ op : RelationOp, op ∈ [RelationOp.gt, .ge, .lt, .le] →
      ∀ (left right : Expr) (v : Value) (s s₁ s₂ s₃ : EvalContext),
      addCost costs.eqConstSize s = .ok () s₁ → left.eval costs s₁ = .ok .bigInt s₂ →
      right.eval costs s₂ = .ok v s₃ →
      (Expr.binOp (.relation op) left right).eval costs s = .error Abort.todo s₃) := by
  refine ⟨fun e he s => ?_, fun kind left rv P Q hl hr hbig => ?_,
    fun op _ _ _ _ _ hc hl => BinOp.eval_arith_bigInt costs op hc hl,
    fun _ hop _ _ _ _ _ _ _ hc hl hr => BinOp.eval_ordering_bigInt costs hop hc hl hr⟩
  · rcases (ensures_no_panic_of_noBigIntConst costs he).apply s with ⟨v, s', h, -⟩ | ⟨_, s', h, err, rfl⟩
    · exact .inl ⟨v, s', h⟩
    · exact .inr ⟨err, s', h⟩
  · exact (BinOp.ensures_no_panic costs kind hl hr hbig).mono (fun _ _ => trivial) fun _ h => h

end SigmaRust
