import SigmaRust.Eval

/-! Checked arithmetic and integer comparison of `BinOp`. On two operands of one integer width, an
arithmetic operator returns the exact integer result when it is a value of that width and an
`ArithmeticException` otherwise, never a wrapped value; an ordering operator returns the order of
the two integers. A right operand of any other variant than the left one's is an `Err`: there is
no widening or coercion. `ArithOp.exactResult` and `RelationOp.holds` state the expected results in
the words of the specification, to be compared with `ArithOp.evalFn` and `evalCompare`. -/

namespace SigmaRust

/-- The exact integer result of an arithmetic operator: for `Divide` the quotient rounded toward
zero, and none for a zero divisor. -/
def ArithOp.exactResult : ArithOp → Int → Int → Option Int
  | .plus, l, r => some (l + r)
  | .minus, l, r => some (l - r)
  | .multiply, l, r => some (l * r)
  | .divide, l, r => if r = 0 then none else some (l.tdiv r)
  | .max, l, r => some (Max.max l r)
  | .min, l, r => some (Min.min l r)

/-- The truth of an ordering operator on two integers. -/
def RelationOp.holds : RelationOp → Int → Int → Bool
  | .gt, l, r => decide (l > r)
  | .ge, l, r => decide (l ≥ r)
  | .lt, l, r => decide (l < r)
  | .le, l, r => decide (l ≤ r)
  | _, _, _ => false

namespace NumWidth

/-- A value of another variant is not read as the width's integer. -/
theorem tryExtract_eq_error {w : NumWidth} {v : Value} (h : ∀ y, v ≠ w.toValue y) :
    ∃ e, w.tryExtract v = .error e := by
  cases hx : w.tryExtract v with
  | error e => exact ⟨e, rfl⟩
  | ok x => exact absurd (tryExtract_eq_ok.mp hx) (h x)

end NumWidth

theorem evalChecked_toValue (op : ∀ {bits : Nat}, SignedInt bits → SignedInt bits → Option (SignedInt bits))
    (symbol outcome : String) (w : NumWidth) (l r : SignedInt w.bits) :
    evalChecked op symbol outcome w l (w.toValue r) =
      match op l r with
      | some x => .ok (w.toValue x)
      | none => .error (.arithmeticException s!"({l}) {symbol} ({r}) resulted in {outcome}") := by
  simp only [evalChecked, NumWidth.tryExtract_toValue, Except.mapError, bind, Except.bind]
  rcases op l r with _ | x <;> rfl

/-- Each arithmetic operator on two integers of one width: the exact result, when it is in range,
and an `ArithmeticException` otherwise. -/
theorem ArithOp.evalFn_toValue (op : ArithOp) (w : NumWidth) (l r : SignedInt w.bits) :
    ∃ msg, op.evalFn w l (w.toValue r) =
      match (op.exactResult l.val r.val).bind SignedInt.ofInt? with
      | some x => .ok (w.toValue x)
      | none => .error (.arithmeticException msg) := by
  cases op
  case divide =>
    obtain ⟨msg, h⟩ : ∃ msg, evalDiv w l (w.toValue r) = match l.checkedDiv r with
        | some x => .ok (w.toValue x)
        | none => .error (.arithmeticException msg) := ⟨_, evalChecked_toValue _ _ _ w l r⟩
    refine ⟨msg, h.trans ?_⟩
    rw [SignedInt.checkedDiv_eq, exactResult]
    by_cases hr : r.val = 0 <;> simp [hr]
  case max | min =>
    refine ⟨"", ?_⟩
    simp [evalFn, evalMax, evalMin, evalTotal, exactResult, Except.mapError,
      SignedInt.ofInt?_eq_some.mpr (SignedInt.max_val l r),
      SignedInt.ofInt?_eq_some.mpr (SignedInt.min_val l r)]
  all_goals exact ⟨_, evalChecked_toValue _ _ _ w l r⟩

/-- Every arithmetic operator fails on a right operand that is not of the left one's width. -/
theorem ArithOp.evalFn_of_extract_error (op : ArithOp) {w : NumWidth} (l : SignedInt w.bits)
    {v : Value} {e : TryExtractFromError} (h : w.tryExtract v = .error e) :
    op.evalFn w l v = .error (.tryExtractFrom e) := by
  cases op <;> simp [evalFn, evalPlus, evalMinus, evalMul, evalDiv, evalMax, evalMin,
    evalChecked, evalTotal, h, Except.mapError] <;> rfl

theorem evalCompare_toValue (cmp : Int → Int → Bool) (w : NumWidth) (l r : SignedInt w.bits) :
    evalCompare cmp (w.toValue l) (w.toValue r) = .ok (.boolean (cmp l.val r.val)) := by
  simp [evalCompare, Except.mapError]

theorem evalCompare_of_extract_error (cmp : Int → Int → Bool) {w : NumWidth} (l : SignedInt w.bits)
    {v : Value} {e : TryExtractFromError} (h : w.tryExtract v = .error e) :
    evalCompare cmp (w.toValue l) v = .error (.error (.tryExtractFrom e)) := by
  simp [evalCompare, Except.mapError, h]

/-- An arithmetic operator's function returns a value of the left operand's width or an `Err`. -/
theorem ArithOp.evalFn_cases (op : ArithOp) (w : NumWidth) (l : SignedInt w.bits) (v : Value) :
    (∃ z, op.evalFn w l v = .ok (w.toValue z)) ∨ (∃ e, op.evalFn w l v = .error e) := by
  cases he : w.tryExtract v with
  | error e => exact .inr ⟨_, op.evalFn_of_extract_error l he⟩
  | ok r =>
    obtain ⟨msg, hfn⟩ := op.evalFn_toValue w l r
    rw [NumWidth.tryExtract_eq_ok.mp he, hfn]
    split
    · exact .inl ⟨_, rfl⟩
    · exact .inr ⟨_, rfl⟩

theorem Value.numView_eq_bigInt {v : Value} (h : v.numView = .bigInt) : v = .bigInt := by
  cases v <;> first | rfl | cases h

/-- A comparison returns a boolean or an `Err`, but panics on a `BigInt` left operand. -/
theorem evalCompare_cases (cmp : Int → Int → Bool) (lv v : Value) :
    (∃ b, evalCompare cmp lv v = .ok (.boolean b)) ∨ (∃ e, evalCompare cmp lv v = .error (.error e)) ∨
      (lv = .bigInt ∧ evalCompare cmp lv v = .error Abort.todo) := by
  unfold evalCompare
  split
  · rename_i w x _
    cases w.tryExtract v with
    | error e => exact .inr (.inl ⟨_, rfl⟩)
    | ok y => exact .inl ⟨_, rfl⟩
  · exact .inr (.inr ⟨Value.numView_eq_bigInt ‹_›, rfl⟩)
  · exact .inr (.inl ⟨_, rfl⟩)

namespace BinOp

variable {rv : EvalM Value} {s s' : EvalContext} {v : Value}

/-- The arithmetic arm on an integer left operand: the operator's function of the right value. -/
theorem evalArith_toValue (op : ArithOp) (w : NumWidth) (l : SignedInt w.bits)
    (h : rv s = .ok v s') : evalArith op (w.toValue l) rv s = liftExcept .error (op.evalFn w l v) s' := by
  simp only [evalArith, Value.numView_toValue]
  exact EvalM.bind_of_ok h

/-- The relation arm of an ordering operator runs `rv`, then `evalCompare` of the two values. -/
theorem evalRelation_ordering {op : RelationOp} (hop : op ∈ [RelationOp.gt, .ge, .lt, .le])
    (lv : Value) (rv : EvalM Value) :
    evalRelation op lv rv = rv >>= fun v => liftExcept id (evalCompare op.holds lv v) := by
  simp only [List.mem_cons, List.mem_singleton, List.not_mem_nil, or_false] at hop
  rcases hop with rfl | rfl | rfl | rfl <;> rfl

end BinOp

section Node

variable (costs : Costs) (w : NumWidth) (l r : SignedInt w.bits) (left right : Expr)
  (s s₁ s₂ s₃ : EvalContext)

/-- Checked arithmetic: on operands that evaluate, in turn, to `W(l)` and `W(r)` of one width, an
arithmetic node returns `W(x)` for the exact integer result `x` when it is a value of `W`, and an
`ArithmeticException` otherwise (also on a zero divisor); on a right operand of any other variant
it returns an `Err`. -/
theorem arith_exact_or_exception (op : ArithOp)
    (hcharge : addCost costs.eqConstSize s = .ok () s₁)
    (hleft : left.eval costs s₁ = .ok (w.toValue l) s₂) :
    (right.eval costs s₂ = .ok (w.toValue r) s₃ →
      match (op.exactResult l.val r.val).bind SignedInt.ofInt? with
      | some x => (Expr.binOp (.arith op) left right).eval costs s = .ok (w.toValue x) s₃
      | none => ∃ msg, (Expr.binOp (.arith op) left right).eval costs s =
          .error (.error (.arithmeticException msg)) s₃) ∧
    (∀ v, (∀ y, v ≠ w.toValue y) → right.eval costs s₂ = .ok v s₃ →
      ∃ e, (Expr.binOp (.arith op) left right).eval costs s = .error (.error e) s₃) := by
  have hnode : ∀ v, right.eval costs s₂ = .ok v s₃ →
      (Expr.binOp (.arith op) left right).eval costs s = liftExcept .error (op.evalFn w l v) s₃ :=
    fun v h => (BinOp.eval_of_left_ok costs _ _ s s₁ s₂ _ _ hcharge hleft).trans
      (BinOp.evalArith_toValue op w l h)
  refine ⟨fun hright => ?_, fun v hv hright => ?_⟩
  · obtain ⟨msg, hfn⟩ := op.evalFn_toValue w l r
    rw [hnode _ hright, hfn]
    split
    · rfl
    · exact ⟨msg, rfl⟩
  · obtain ⟨e, he⟩ := NumWidth.tryExtract_eq_error hv
    exact ⟨_, by rw [hnode v hright, op.evalFn_of_extract_error l he]; rfl⟩

/-- `i64::MAX + 1` overflows into an `ArithmeticException`. -/
theorem long_max_plus_one_overflows :
    addCost 1 ⟨⟨0, none⟩⟩ = .ok () ⟨⟨1, none⟩⟩ ∧
    (Expr.const ⟨.sLong, .long ⟨9223372036854775807, by decide⟩⟩).eval ⟨1⟩ ⟨⟨1, none⟩⟩ =
      .ok (.long ⟨9223372036854775807, by decide⟩) ⟨⟨1, none⟩⟩ ∧
    ∃ msg, (Expr.binOp (.arith .plus) (.const ⟨.sLong, .long ⟨9223372036854775807, by decide⟩⟩)
      (.const ⟨.sLong, .long ⟨1, by decide⟩⟩)).eval ⟨1⟩ ⟨⟨0, none⟩⟩ =
        .error (.error (.arithmeticException msg)) ⟨⟨1, none⟩⟩ :=
  ⟨rfl, rfl, (arith_exact_or_exception ⟨1⟩ .long ⟨9223372036854775807, by decide⟩ ⟨1, by decide⟩
    (.const ⟨.sLong, .long ⟨9223372036854775807, by decide⟩⟩) (.const ⟨.sLong, .long ⟨1, by decide⟩⟩)
    ⟨⟨0, none⟩⟩ ⟨⟨1, none⟩⟩ ⟨⟨1, none⟩⟩ ⟨⟨1, none⟩⟩ .plus rfl rfl).1 rfl⟩

/-- Ordering: on operands that evaluate, in turn, to `W(l)` and `W(r)` of one width, `GT`, `GE`,
`LT` and `LE` return the order of the integers `l` and `r`; on a right operand of any other variant
they return an `Err`. -/
theorem ordering_agrees (op : RelationOp) (hop : op ∈ [RelationOp.gt, .ge, .lt, .le])
    (hcharge : addCost costs.eqConstSize s = .ok () s₁)
    (hleft : left.eval costs s₁ = .ok (w.toValue l) s₂) :
    (right.eval costs s₂ = .ok (w.toValue r) s₃ →
      (Expr.binOp (.relation op) left right).eval costs s = .ok (.boolean (op.holds l.val r.val)) s₃) ∧
    (∀ v, (∀ y, v ≠ w.toValue y) → right.eval costs s₂ = .ok v s₃ →
      ∃ e, (Expr.binOp (.relation op) left right).eval costs s = .error (.error e) s₃) := by
  have hnode : ∀ v, right.eval costs s₂ = .ok v s₃ →
      (Expr.binOp (.relation op) left right).eval costs s =
        liftExcept id (evalCompare op.holds (w.toValue l) v) s₃ :=
    fun v h => (BinOp.eval_of_left_ok costs _ _ s s₁ s₂ _ _ hcharge hleft).trans
      ((congrFun (BinOp.evalRelation_ordering hop _ _) s₂).trans (EvalM.bind_of_ok h))
  refine ⟨fun hright => ?_, fun v hv hright => ?_⟩
  · rw [hnode _ hright, evalCompare_toValue]; rfl
  · obtain ⟨e, he⟩ := NumWidth.tryExtract_eq_error hv
    exact ⟨_, by rw [hnode v hright, evalCompare_of_extract_error _ l he]; rfl⟩

/-- `GE` is true on two equal `Long` operands. -/
theorem long_ge_self :
    addCost 1 ⟨⟨0, none⟩⟩ = .ok () ⟨⟨1, none⟩⟩ ∧
    (Expr.const ⟨.sLong, .long ⟨5, by decide⟩⟩).eval ⟨1⟩ ⟨⟨1, none⟩⟩ =
      .ok (.long ⟨5, by decide⟩) ⟨⟨1, none⟩⟩ ∧
    (Expr.binOp (.relation .ge) (.const ⟨.sLong, .long ⟨5, by decide⟩⟩)
      (.const ⟨.sLong, .long ⟨5, by decide⟩⟩)).eval ⟨1⟩ ⟨⟨0, none⟩⟩ =
        .ok (.boolean true) ⟨⟨1, none⟩⟩ :=
  ⟨rfl, rfl, (ordering_agrees ⟨1⟩ .long ⟨5, by decide⟩ ⟨5, by decide⟩
    (.const ⟨.sLong, .long ⟨5, by decide⟩⟩) (.const ⟨.sLong, .long ⟨5, by decide⟩⟩)
    ⟨⟨0, none⟩⟩ ⟨⟨1, none⟩⟩ ⟨⟨1, none⟩⟩ ⟨⟨1, none⟩⟩ .ge (by decide) rfl rfl).1 rfl⟩

end Node

end SigmaRust
