import SigmaRust.Arithmetic
import SigmaRust.Ensures

/-! Type soundness of evaluation. A tree is well typed when every constant's value has its declared
type, arithmetic and ordering operands share one integer type, `Eq` and `NEq` operands share a
type, `And`, `Or` and every `If` condition are boolean, and both `If` branches have one type. On a
well-typed tree, evaluation from any context returns a value of the tree's `tpe()`, an
`ArithmeticException`, or the cost-limit error: the dynamic type errors (`try_extract_into`,
`UnexpectedValue`) and the `todo!()` panics are never reached. Every node that could reach a
`todo!()` needs integer operands, so no hypothesis excludes `SBigInt` nodes. -/

namespace SigmaRust

/-- The well-typed trees. -/
inductive Expr.WellTyped : Expr → Prop
  | const {c : Constant} : c.v.hasType c.tpe = true → WellTyped (.const c)
  | arith {op : ArithOp} {left right : Expr} (w : NumWidth) : WellTyped left → WellTyped right →
      left.tpe = w.tpe → right.tpe = w.tpe → WellTyped (.binOp (.arith op) left right)
  | ordering {op : RelationOp} {left right : Expr} (w : NumWidth) :
      op ∈ [RelationOp.gt, .ge, .lt, .le] → WellTyped left → WellTyped right →
      left.tpe = w.tpe → right.tpe = w.tpe → WellTyped (.binOp (.relation op) left right)
  | equality {op : RelationOp} {left right : Expr} : op = .eq ∨ op = .neq →
      WellTyped left → WellTyped right → left.tpe = right.tpe →
      WellTyped (.binOp (.relation op) left right)
  | logical {op : RelationOp} {left right : Expr} : op = .and ∨ op = .or →
      WellTyped left → WellTyped right → left.tpe = .sBoolean → right.tpe = .sBoolean →
      WellTyped (.binOp (.relation op) left right)
  | ifOp {condition trueBranch falseBranch : Expr} : WellTyped condition → WellTyped trueBranch →
      WellTyped falseBranch → condition.tpe = .sBoolean → trueBranch.tpe = falseBranch.tpe →
      WellTyped (.ifOp condition trueBranch falseBranch)

/-- The failures a well-typed evaluation may end in: an `ArithmeticException`, or the cost-limit
error. -/
def TypedFailure (a : Abort) : Prop :=
  (∃ msg, a = .error (.arithmeticException msg)) ∨ a = .error (.costError .limitExceeded)

section

variable (costs : Costs)

/-- The arms of a well-typed `And` or `Or` on a boolean left operand. -/
theorem ensures_logical {op : RelationOp} (hop : op = .and ∨ op = .or) (b : Bool) {rv : EvalM Value}
    (hrv : Ensures (fun v => v.hasType .sBoolean = true) TypedFailure rv) :
    Ensures (fun v => v.hasType .sBoolean = true) TypedFailure
      (BinOp.evalRelation op (.boolean b) rv) := by
  have hright : Ensures (fun v : Value => v.hasType .sBoolean = true) TypedFailure
      (rv >>= fun v : Value => liftExtract v.tryExtractBool >>= fun b : Bool => pure (.boolean b)) :=
    Ensures.bind hrv fun v hv => by
      obtain ⟨b', rfl⟩ := Value.eq_boolean_of_hasType hv
      exact Ensures.bind Ensures.liftExtract_ok fun _ _ => Ensures.of_pure rfl
  rcases hop with rfl | rfl <;>
    exact Ensures.bind Ensures.liftExtract_ok fun _ h => h ▸ Ensures.ite (fun _ => hright)
      (fun _ => Ensures.of_pure rfl)

/-- Evaluation of a well-typed tree ends in a value of its type or a `TypedFailure`. -/
theorem ensures_of_wellTyped {e : Expr} (he : e.WellTyped) :
    Ensures (fun v => v.hasType e.tpe = true) TypedFailure (e.eval costs) := by
  induction he with
  | const hc => exact Ensures.of_pure hc
  | @arith op left right w _ _ hlt hrt ihl ihr =>
    refine Ensures.binOp_eval (.inr rfl) ihl fun lv hlv => ?_
    obtain ⟨x, rfl⟩ := NumWidth.eq_toValue_of_hasType (hlt ▸ hlv)
    simp only [BinOp.evalArith, Value.numView_toValue]
    refine Ensures.bind ihr fun rv hrv => ?_
    obtain ⟨y, rfl⟩ := NumWidth.eq_toValue_of_hasType (hrt ▸ hrv)
    obtain ⟨msg, hfn⟩ := op.evalFn_toValue w x y
    rw [hfn]
    split
    · exact Ensures.of_pure (by simp only [Expr.tpe, hlt, NumWidth.toValue_hasType])
    · exact Ensures.of_throw (.inl ⟨msg, rfl⟩)
  | @ordering op left right w hop _ _ hlt hrt ihl ihr =>
    refine Ensures.binOp_eval (.inr rfl) ihl fun lv hlv => ?_
    obtain ⟨x, rfl⟩ := NumWidth.eq_toValue_of_hasType (hlt ▸ hlv)
    dsimp only
    rw [BinOp.evalRelation_ordering hop]
    refine Ensures.bind ihr fun rv hrv => ?_
    obtain ⟨y, rfl⟩ := NumWidth.eq_toValue_of_hasType (hrt ▸ hrv)
    rw [evalCompare_toValue]
    exact Ensures.of_pure rfl
  | equality hop _ _ _ ihl ihr =>
    refine Ensures.binOp_eval (.inr rfl) ihl fun _ _ => ?_
    rcases hop with rfl | rfl <;> exact Ensures.bind ihr fun _ _ => Ensures.of_pure rfl
  | logical hop _ _ hlt hrt ihl ihr =>
    refine Ensures.binOp_eval (.inr rfl) ihl fun lv hlv => ?_
    obtain ⟨b, rfl⟩ := Value.eq_boolean_of_hasType (hlt ▸ hlv)
    exact ensures_logical hop b (hrt ▸ ihr)
  | ifOp _ _ _ hct htf ihc iht ihf =>
    refine Ensures.if_eval ihc (fun v hv e he => ?_) iht (htf ▸ ihf)
    obtain ⟨b, rfl⟩ := Value.eq_boolean_of_hasType (hct ▸ hv)
    cases he

/-- Type soundness: a well-typed tree evaluates, from any context, to a value of its `tpe()`, to an
`ArithmeticException`, or to the cost-limit error; never to a dynamic type error or a panic. -/
theorem eval_well_typed (e : Expr) (he : e.WellTyped) (s : EvalContext) :
    (∃ v s', e.eval costs s = .ok v s' ∧ v.hasType e.tpe = true) ∨
    (∃ msg s', e.eval costs s = .error (.error (.arithmeticException msg)) s') ∨
    (∃ s', e.eval costs s = .error (.error (.costError .limitExceeded)) s') := by
  rcases (ensures_of_wellTyped costs he).apply s with h | ⟨a, s', hs, ⟨msg, rfl⟩ | rfl⟩
  · exact .inl h
  · exact .inr (.inl ⟨msg, s', hs⟩)
  · exact .inr (.inr ⟨s', hs⟩)

end

/-- `If(true, 1L, 1L / 0L)`, a well-typed tree with a division by zero in its untaken branch. -/
theorem lazy_if_well_typed :
    (Expr.ifOp (.const ⟨.sBoolean, .boolean true⟩) (.const ⟨.sLong, .long ⟨1, by decide⟩⟩)
      (.binOp (.arith .divide) (.const ⟨.sLong, .long ⟨1, by decide⟩⟩)
        (.const ⟨.sLong, .long ⟨0, by decide⟩⟩))).WellTyped ∧
    ((∃ v s', (Expr.ifOp (.const ⟨.sBoolean, .boolean true⟩) (.const ⟨.sLong, .long ⟨1, by decide⟩⟩)
      (.binOp (.arith .divide) (.const ⟨.sLong, .long ⟨1, by decide⟩⟩)
        (.const ⟨.sLong, .long ⟨0, by decide⟩⟩))).eval ⟨1⟩ ⟨⟨0, none⟩⟩ = .ok v s' ∧
        v.hasType .sLong = true) ∨
    (∃ msg s', (Expr.ifOp (.const ⟨.sBoolean, .boolean true⟩) (.const ⟨.sLong, .long ⟨1, by decide⟩⟩)
      (.binOp (.arith .divide) (.const ⟨.sLong, .long ⟨1, by decide⟩⟩)
        (.const ⟨.sLong, .long ⟨0, by decide⟩⟩))).eval ⟨1⟩ ⟨⟨0, none⟩⟩ =
          .error (.error (.arithmeticException msg)) s') ∨
    (∃ s', (Expr.ifOp (.const ⟨.sBoolean, .boolean true⟩) (.const ⟨.sLong, .long ⟨1, by decide⟩⟩)
      (.binOp (.arith .divide) (.const ⟨.sLong, .long ⟨1, by decide⟩⟩)
        (.const ⟨.sLong, .long ⟨0, by decide⟩⟩))).eval ⟨1⟩ ⟨⟨0, none⟩⟩ =
          .error (.error (.costError .limitExceeded)) s')) := by
  have hwt : (Expr.ifOp (.const ⟨.sBoolean, .boolean true⟩) (.const ⟨.sLong, .long ⟨1, by decide⟩⟩)
      (.binOp (.arith .divide) (.const ⟨.sLong, .long ⟨1, by decide⟩⟩)
        (.const ⟨.sLong, .long ⟨0, by decide⟩⟩))).WellTyped :=
    .ifOp (.const rfl) (.const rfl) (.arith .long (.const rfl) (.const rfl) rfl rfl) rfl rfl
  exact ⟨hwt, eval_well_typed ⟨1⟩ _ hwt _⟩

end SigmaRust
