import SigmaRust.Ceiling
import SigmaRust.Arithmetic

/-! Without a ceiling, evaluation does not read the accumulator: charges are added to it, and only
the ceiling is ever compared with it. So a run from the accumulator `a + d` is the run from `a` with
the accumulator it leaves raised by `d` (`Expr.eval_shift`), for every tree, also one that fails or
panics. What a tree returns and charges therefore does not depend on where the accumulator starts,
and `Eq` and `NEq` over two trees that evaluate compare their values whatever order the operands
come in. On two integers of one width, swapping the operands turns `GT` and `GE` into `LT` and
`LE`, and leaves `Plus`, `Multiply`, `Max` and `Min` as they were but for the text of an
overflow. The spec's reflexivity of `Eq` follows: `Eq(e, e)` is true and `NEq(e, e)` false for every
tree `e` that evaluates, at the charge of `e` twice and one node, and so under every ceiling that
charge fits.

Every evaluation also charges at most `eq_const_size` for each `BinOp` node of the tree, whatever
its outcome, and a ceiling that leaves room for that much is never seen: under it, evaluation does
exactly what it does without one (`Expr.eval_ceiling_transparent`). And the cost table only scales
the charge: at any `eq_const_size`, evaluation does what it does at cost 1 and charges that many
times the number of `BinOp` nodes it visits (`Expr.eval_rescale`). -/

namespace SigmaRust

/-- A run's outcome with the accumulator of the context it leaves raised by `d`. -/
def shiftBy {α : Type} (d : Nat) :
    EStateM.Result Abort EvalContext α → EStateM.Result Abort EvalContext α
  | .ok x s => .ok x ⟨{ s.costAccum with accum := s.costAccum.accum + d }⟩
  | .error e s => .error e ⟨{ s.costAccum with accum := s.costAccum.accum + d }⟩

/-- Without a ceiling, `m` from the accumulator `a + d` does what it does from `a`, and leaves the
accumulator raised by `d`. -/
def Shifts {α : Type} (m : EvalM α) : Prop :=
  ∀ a d, m (ctxOf (a + d) none) = shiftBy d (m (ctxOf a none))

namespace Shifts

variable {α β : Type}

theorem of_pure (x : α) : Shifts (pure x : EvalM α) := fun _ _ => rfl

theorem of_throw (e : Abort) : Shifts (throw e : EvalM α) := fun _ _ => rfl

theorem of_liftExcept {ε : Type} (g : ε → Abort) (r : Except ε α) : Shifts (liftExcept g r) := by
  cases r
  · exact of_throw _
  · exact of_pure _

theorem ite {c : Prop} [Decidable c] {t e : EvalM α} (ht : Shifts t) (he : Shifts e) :
    Shifts (if c then t else e) := by
  by_cases hc : c
  · rw [if_pos hc]; exact ht
  · rw [if_neg hc]; exact he

theorem addCost (cost : Nat) : Shifts (SigmaRust.addCost cost) := fun a d => by
  show EStateM.Result.ok () (ctxOf (a + d + cost) none) = .ok () (ctxOf (a + cost + d) none)
  rw [Nat.add_right_comm]

/-- Sequencing shifts when the first computation leaves a context without a ceiling, as every
metered one does. -/
theorem bind {m : EvalM α} {f : α → EvalM β} (hmm : Metered m) (hm : Shifts m)
    (hf : ∀ x, Shifts (f x)) : Shifts (m >>= f) := fun a d => by
  obtain ⟨c, -, hc⟩ := hmm.frame a
  cases h : m (ctxOf a none) with
  | ok x s =>
    obtain rfl : s = ctxOf c none := by rw [h] at hc; exact hc
    have h' : m (ctxOf (a + d) none) = .ok x (ctxOf (c + d) none) := by rw [hm, h]; rfl
    rw [EvalM.bind_of_ok h', EvalM.bind_of_ok h, hf x]
  | error e s =>
    have h' : m (ctxOf (a + d) none) =
        .error e ⟨{ s.costAccum with accum := s.costAccum.accum + d }⟩ := by rw [hm, h]; rfl
    rw [EvalM.bind_of_error h', EvalM.bind_of_error h]
    rfl

/-- `BinOpKind::Relation` arms. -/
theorem evalRelation (op : RelationOp) (lv : Value) {rv : EvalM Value} (hrm : Metered rv)
    (hr : Shifts rv) : Shifts (BinOp.evalRelation op lv rv) := by
  have hright : Shifts (rv >>= fun v : Value =>
      liftExtract v.tryExtractBool >>= fun b : Bool => pure (Value.boolean b)) :=
    bind hrm hr fun _ => bind (Metered.of_liftExcept _ _) (of_liftExcept _ _) fun _ => of_pure _
  cases op
  case and | or =>
    exact bind (Metered.of_liftExcept _ _) (of_liftExcept _ _) fun _ => ite hright (of_pure _)
  case eq | neq => exact bind hrm hr fun _ => of_pure _
  all_goals exact bind hrm hr fun _ => of_liftExcept _ _

/-- `BinOpKind::Arith` arms. -/
theorem evalArith (op : ArithOp) (lv : Value) {rv : EvalM Value} (hrm : Metered rv)
    (hr : Shifts rv) : Shifts (BinOp.evalArith op lv rv) := by
  unfold BinOp.evalArith
  split
  · exact bind hrm hr fun _ => of_liftExcept _ _
  all_goals exact of_throw _

end Shifts

/-- Without a ceiling, every evaluation from `a + d` is the evaluation from `a` with the accumulator
it leaves raised by `d`, whatever the tree and whatever the outcome. -/
theorem Expr.eval_shift (costs : Costs) (e : Expr) : Shifts (e.eval costs) := by
  induction e with
  | const c => exact Shifts.of_pure _
  | binOp kind left right ihl ihr =>
    refine Shifts.bind (Metered.addCost _) (Shifts.addCost _) fun _ =>
      Shifts.bind (left.eval_metered costs) ihl fun lv => ?_
    cases kind
    · exact Shifts.evalArith _ lv (right.eval_metered costs) ihr
    · exact Shifts.evalRelation _ lv (right.eval_metered costs) ihr
  | ifOp condition trueBranch falseBranch ihc iht ihf =>
    exact Shifts.bind (condition.eval_metered costs) ihc fun _ =>
      Shifts.bind (Metered.of_liftExcept _ _) (Shifts.of_liftExcept _ _) fun _ => Shifts.ite iht ihf

/-- A metered run that returns within a ceiling returns the same under it. -/
theorem Metered.ok_under_ceiling {α : Type} {m : EvalM α} (hm : Metered m) {a c L : Nat} {x : α}
    (h : m (ctxOf a none) = .ok x (ctxOf c none)) (hle : c ≤ L) :
    m (ctxOf a (some L)) = .ok x (ctxOf c (some L)) := by
  have hc := hm.ceiling a L
  rw [h] at hc
  exact hc.1 hle

theorem shiftBy_eq_ok_iff {α : Type} {r : EStateM.Result Abort EvalContext α} {d c : Nat} {x : α} :
    shiftBy d r = .ok x (ctxOf (d + c) none) ↔ r = .ok x (ctxOf c none) := by
  rcases r with ⟨y, ⟨⟨acc, lim⟩⟩⟩ | ⟨e, s⟩
  · simp only [shiftBy, ctxOf, EStateM.Result.ok.injEq, EvalContext.mk.injEq,
      CostAccumulator.mk.injEq]
    constructor
    · rintro ⟨rfl, h, rfl⟩; exact ⟨rfl, by omega, rfl⟩
    · rintro ⟨rfl, rfl, rfl⟩; exact ⟨rfl, Nat.add_comm _ _, rfl⟩
  · simp only [shiftBy, reduceCtorEq]

/-- What a tree returns, and what it charges, does not depend on where the accumulator starts. -/
theorem Expr.eval_ok_iff_from (costs : Costs) (e : Expr) (a b c : Nat) (v : Value) :
    e.eval costs (ctxOf a none) = .ok v (ctxOf (a + c) none) ↔
      e.eval costs (ctxOf b none) = .ok v (ctxOf (b + c) none) := by
  have hstart : ∀ n, e.eval costs (ctxOf n none) = shiftBy n (e.eval costs (ctxOf 0 none)) :=
    fun n => by rw [← e.eval_shift costs 0 n, Nat.zero_add]
  rw [hstart a, hstart b, shiftBy_eq_ok_iff, shiftBy_eq_ok_iff]

/-- `Eq` and `NEq` over two trees that evaluate, the left charging `cl` and the right `cr`: the
right runs from where the left left the accumulator, so the node returns structural equality of
the two values, or its negation, having charged itself and both operands. -/
theorem Expr.eval_equality_of_ok (costs : Costs) {l r : Expr} {a cl cr : Nat} {vl vr : Value}
    (hl : l.eval costs (ctxOf a none) = .ok vl (ctxOf (a + cl) none))
    (hr : r.eval costs (ctxOf a none) = .ok vr (ctxOf (a + cr) none)) :
    (Expr.binOp (.relation .eq) l r).eval costs (ctxOf a none) =
      .ok (.boolean (vl == vr)) (ctxOf (a + costs.eqConstSize + cl + cr) none) ∧
    (Expr.binOp (.relation .neq) l r).eval costs (ctxOf a none) =
      .ok (.boolean (vl != vr)) (ctxOf (a + costs.eqConstSize + cl + cr) none) := by
  have hcharge : SigmaRust.addCost costs.eqConstSize (ctxOf a none) =
      .ok () (ctxOf (a + costs.eqConstSize) none) := rfl
  have hleft := (l.eval_ok_iff_from costs a (a + costs.eqConstSize) cl vl).mp hl
  have hright := (r.eval_ok_iff_from costs a (a + costs.eqConstSize + cl) cr vr).mp hr
  have hnode : ∀ op : RelationOp, (Expr.binOp (.relation op) l r).eval costs (ctxOf a none) =
      (BinOp.evalRelation op vl (r.eval costs)) (ctxOf (a + costs.eqConstSize + cl) none) :=
    fun op => BinOp.eval_of_left_ok costs _ _ _ _ _ (.relation op) vl hcharge hleft
  rw [hnode, hnode, BinOp.evalRelation, BinOp.evalRelation, EvalM.bind_of_ok hright,
    EvalM.bind_of_ok hright]
  exact ⟨rfl, rfl⟩

/-- `Eq(e, e)` is true and `NEq(e, e)` false for every tree `e` that evaluates: the right operand
is `e` again, run from where the left one left the accumulator plus the node's charge, so it returns
the same value, and `e`'s charge is counted twice. Under a ceiling the same holds whenever that
total fits. -/
theorem Expr.eval_eq_self (costs : Costs) (e : Expr) {a c : Nat} {v : Value}
    (h : e.eval costs (ctxOf a none) = .ok v (ctxOf c none)) (L : Option Nat)
    (hfit : ∀ n ∈ L, c + costs.eqConstSize + (c - a) ≤ n) :
    (Expr.binOp (.relation .eq) e e).eval costs (ctxOf a L) =
      .ok (.boolean true) (ctxOf (c + costs.eqConstSize + (c - a)) L) ∧
    (Expr.binOp (.relation .neq) e e).eval costs (ctxOf a L) =
      .ok (.boolean false) (ctxOf (c + costs.eqConstSize + (c - a)) L) := by
  obtain ⟨c', hac, hc'⟩ := (e.eval_metered costs).frame a
  obtain rfl : c = c' := by rw [h] at hc'; exact congrArg (·.costAccum.accum) hc'
  have htotal : a + costs.eqConstSize + (c - a) + (c - a) = c + costs.eqConstSize + (c - a) := by
    omega
  have he : e.eval costs (ctxOf a none) = .ok v (ctxOf (a + (c - a)) none) := by
    rw [Nat.add_sub_cancel' hac, h]
  obtain ⟨heq, hneq⟩ := Expr.eval_equality_of_ok costs he he
  rw [htotal, beq_self_eq_true] at heq
  rw [htotal, bne_self_eq_false] at hneq
  cases L with
  | none => exact ⟨heq, hneq⟩
  | some n =>
    exact ⟨(Expr.eval_metered costs _).ok_under_ceiling heq (hfit n rfl),
      (Expr.eval_metered costs _).ok_under_ceiling hneq (hfit n rfl)⟩

/-- `Eq(1L + 2L, 1L + 2L)` at one unit a node, from an empty accumulator under the ceiling 3. -/
theorem eval_eq_self_sum :
    (Expr.binOp (.relation .eq)
      (.binOp (.arith .plus) (.const ⟨.sLong, .long ⟨1, by decide⟩⟩) (.const ⟨.sLong, .long ⟨2, by decide⟩⟩))
      (.binOp (.arith .plus) (.const ⟨.sLong, .long ⟨1, by decide⟩⟩) (.const ⟨.sLong, .long ⟨2, by decide⟩⟩))).eval
        ⟨1⟩ (ctxOf 0 (some 3)) = .ok (.boolean true) (ctxOf 3 (some 3)) ∧
    (Expr.binOp (.relation .neq)
      (.binOp (.arith .plus) (.const ⟨.sLong, .long ⟨1, by decide⟩⟩) (.const ⟨.sLong, .long ⟨2, by decide⟩⟩))
      (.binOp (.arith .plus) (.const ⟨.sLong, .long ⟨1, by decide⟩⟩) (.const ⟨.sLong, .long ⟨2, by decide⟩⟩))).eval
        ⟨1⟩ (ctxOf 0 (some 3)) = .ok (.boolean false) (ctxOf 3 (some 3)) :=
  by
  refine Expr.eval_eq_self ⟨1⟩ _ (a := 0) (c := 1) (v := .long ⟨3, by decide⟩) ?_ (some 3) fun n hn => ?_
  · rfl
  · cases hn; decide

/-- Swapping the operands of `Eq` or `NEq` changes nothing when both evaluate: in either order the
node returns the same boolean, structural equality of the two values or its negation, and leaves
the accumulator at the same place, having charged itself and both operands. -/
theorem Expr.eval_eq_comm (costs : Costs) (l r : Expr) {a cl cr : Nat} {vl vr : Value}
    (hl : l.eval costs (ctxOf a none) = .ok vl (ctxOf (a + cl) none))
    (hr : r.eval costs (ctxOf a none) = .ok vr (ctxOf (a + cr) none)) :
    (Expr.binOp (.relation .eq) l r).eval costs (ctxOf a none) =
      .ok (.boolean (vl == vr)) (ctxOf (a + costs.eqConstSize + cl + cr) none) ∧
    (Expr.binOp (.relation .eq) r l).eval costs (ctxOf a none) =
      .ok (.boolean (vl == vr)) (ctxOf (a + costs.eqConstSize + cl + cr) none) ∧
    (Expr.binOp (.relation .neq) l r).eval costs (ctxOf a none) =
      .ok (.boolean (vl != vr)) (ctxOf (a + costs.eqConstSize + cl + cr) none) ∧
    (Expr.binOp (.relation .neq) r l).eval costs (ctxOf a none) =
      .ok (.boolean (vl != vr)) (ctxOf (a + costs.eqConstSize + cl + cr) none) := by
  obtain ⟨heq, hneq⟩ := Expr.eval_equality_of_ok costs hl hr
  obtain ⟨heq', hneq'⟩ := Expr.eval_equality_of_ok costs hr hl
  rw [Bool.beq_comm, Nat.add_right_comm _ cr] at heq'
  rw [bne, Bool.beq_comm, ← bne, Nat.add_right_comm _ cr] at hneq'
  exact ⟨heq, heq', hneq, hneq'⟩

/-- `Eq(1L, 2L + 0L)` and its swap at one unit a node: both false, both at accumulator 2. -/
theorem eval_eq_comm_long :
    (Expr.binOp (.relation .eq) (.const ⟨.sLong, .long ⟨1, by decide⟩⟩)
        (.binOp (.arith .plus) (.const ⟨.sLong, .long ⟨2, by decide⟩⟩)
          (.const ⟨.sLong, .long ⟨0, by decide⟩⟩))).eval ⟨1⟩ (ctxOf 0 none) =
      .ok (.boolean (Value.long ⟨1, by decide⟩ == Value.long ⟨2, by decide⟩)) (ctxOf (0 + 1 + 0 + 1) none) ∧
    (Expr.binOp (.relation .eq) (.binOp (.arith .plus) (.const ⟨.sLong, .long ⟨2, by decide⟩⟩)
          (.const ⟨.sLong, .long ⟨0, by decide⟩⟩)) (.const ⟨.sLong, .long ⟨1, by decide⟩⟩)).eval
        ⟨1⟩ (ctxOf 0 none) =
      .ok (.boolean (Value.long ⟨1, by decide⟩ == Value.long ⟨2, by decide⟩)) (ctxOf (0 + 1 + 0 + 1) none) ∧
    (Expr.binOp (.relation .neq) (.const ⟨.sLong, .long ⟨1, by decide⟩⟩)
        (.binOp (.arith .plus) (.const ⟨.sLong, .long ⟨2, by decide⟩⟩)
          (.const ⟨.sLong, .long ⟨0, by decide⟩⟩))).eval ⟨1⟩ (ctxOf 0 none) =
      .ok (.boolean (Value.long ⟨1, by decide⟩ != Value.long ⟨2, by decide⟩)) (ctxOf (0 + 1 + 0 + 1) none) ∧
    (Expr.binOp (.relation .neq) (.binOp (.arith .plus) (.const ⟨.sLong, .long ⟨2, by decide⟩⟩)
          (.const ⟨.sLong, .long ⟨0, by decide⟩⟩)) (.const ⟨.sLong, .long ⟨1, by decide⟩⟩)).eval
        ⟨1⟩ (ctxOf 0 none) =
      .ok (.boolean (Value.long ⟨1, by decide⟩ != Value.long ⟨2, by decide⟩)) (ctxOf (0 + 1 + 0 + 1) none) :=
  Expr.eval_eq_comm ⟨1⟩ _ _ rfl rfl

/-! ### Swapping the operands -/

section Swap

variable (costs : Costs) {w : NumWidth} {l r : Expr} {a cl cr : Nat} {x y : SignedInt w.bits}

theorem addCost_ctxOf (cost a : Nat) :
    addCost cost (ctxOf a none) = .ok () (ctxOf (a + cost) none) := rfl

/-- An arithmetic node over two trees that evaluate, the left to an integer: the operator's
function of the two values, with the accumulator past the node and both operands. -/
theorem Expr.eval_arith_of_ok (op : ArithOp) {vr : Value}
    (hl : l.eval costs (ctxOf a none) = .ok (w.toValue x) (ctxOf (a + cl) none))
    (hr : r.eval costs (ctxOf a none) = .ok vr (ctxOf (a + cr) none)) :
    (Expr.binOp (.arith op) l r).eval costs (ctxOf a none) =
      liftExcept .error (op.evalFn w x vr) (ctxOf (a + costs.eqConstSize + cl + cr) none) :=
  (BinOp.eval_of_left_ok costs _ _ _ _ _ (.arith op) _ (addCost_ctxOf _ a)
    ((l.eval_ok_iff_from costs a (a + costs.eqConstSize) cl _).mp hl)).trans
    (BinOp.evalArith_toValue op w x ((r.eval_ok_iff_from costs a _ cr vr).mp hr))

/-- An ordering node over two trees that evaluate to integers of one width: their order. -/
theorem Expr.eval_ordering_of_ok {op : RelationOp} (hop : op ∈ [RelationOp.gt, .ge, .lt, .le])
    (hl : l.eval costs (ctxOf a none) = .ok (w.toValue x) (ctxOf (a + cl) none))
    (hr : r.eval costs (ctxOf a none) = .ok (w.toValue y) (ctxOf (a + cr) none)) :
    (Expr.binOp (.relation op) l r).eval costs (ctxOf a none) =
      .ok (.boolean (op.holds x.val y.val)) (ctxOf (a + costs.eqConstSize + cl + cr) none) := by
  rw [Expr.eval, BinOp.eval_of_left_ok costs _ _ _ _ _ (.relation op) _ (addCost_ctxOf _ a)
    ((l.eval_ok_iff_from costs a (a + costs.eqConstSize) cl _).mp hl)]
  dsimp only
  rw [BinOp.evalRelation_ordering hop, EvalM.bind_of_ok ((r.eval_ok_iff_from costs a _ cr _).mp hr),
    evalCompare_toValue]
  rfl

theorem ArithOp.exactResult_comm {op : ArithOp} (hop : op ∈ [ArithOp.plus, .multiply, .max, .min])
    (i j : Int) : op.exactResult i j = op.exactResult j i := by
  simp only [List.mem_cons, List.mem_singleton, List.not_mem_nil, or_false] at hop
  rcases hop with rfl | rfl | rfl | rfl
  · exact congrArg some (Int.add_comm i j)
  · exact congrArg some (Int.mul_comm i j)
  · exact congrArg some (Int.max_comm i j)
  · exact congrArg some (Int.min_comm i j)

/-- Swapping the operands of a node over two trees that evaluate to integers of one width: `GT`
and `GE` become `LT` and `LE` and return the same, and `Plus`, `Multiply`, `Max` and `Min`
return the same value, or fail with an `ArithmeticException` in both orders (whose text names the
operands in their order). Either way the accumulator ends at the same place. -/
theorem Expr.eval_swap_operands
    (hl : l.eval costs (ctxOf a none) = .ok (w.toValue x) (ctxOf (a + cl) none))
    (hr : r.eval costs (ctxOf a none) = .ok (w.toValue y) (ctxOf (a + cr) none)) :
    (Expr.binOp (.relation .gt) l r).eval costs (ctxOf a none) =
      (Expr.binOp (.relation .lt) r l).eval costs (ctxOf a none) ∧
    (Expr.binOp (.relation .ge) l r).eval costs (ctxOf a none) =
      (Expr.binOp (.relation .le) r l).eval costs (ctxOf a none) ∧
    ∀ op ∈ [ArithOp.plus, .multiply, .max, .min],
      (∀ v s, (Expr.binOp (.arith op) l r).eval costs (ctxOf a none) = .ok v s ↔
        (Expr.binOp (.arith op) r l).eval costs (ctxOf a none) = .ok v s) ∧
      ∀ s, (∃ msg, (Expr.binOp (.arith op) l r).eval costs (ctxOf a none) =
          .error (.error (.arithmeticException msg)) s) ↔
        (∃ msg, (Expr.binOp (.arith op) r l).eval costs (ctxOf a none) =
          .error (.error (.arithmeticException msg)) s) := by
  have hend : a + costs.eqConstSize + cr + cl = a + costs.eqConstSize + cl + cr :=
    Nat.add_right_comm _ _ _
  refine ⟨?_, ?_, fun op hop => ?_⟩
  · rw [Expr.eval_ordering_of_ok costs (by decide) hl hr,
      Expr.eval_ordering_of_ok costs (by decide) hr hl, hend]
    rfl
  · rw [Expr.eval_ordering_of_ok costs (by decide) hl hr,
      Expr.eval_ordering_of_ok costs (by decide) hr hl, hend]
    rfl
  · obtain ⟨m₁, h₁⟩ := op.evalFn_toValue w x y
    obtain ⟨m₂, h₂⟩ := op.evalFn_toValue w y x
    rw [Expr.eval_arith_of_ok costs op hl hr, Expr.eval_arith_of_ok costs op hr hl, hend, h₁, h₂,
      ArithOp.exactResult_comm hop x.val]
    split
    · exact ⟨fun _ _ => Iff.rfl, fun _ => Iff.rfl⟩
    · refine ⟨fun _ _ => ⟨fun h => ?_, fun h => ?_⟩,
        fun _ => ⟨fun ⟨_, h⟩ => ⟨m₂, ?_⟩, fun ⟨_, h⟩ => ⟨m₁, ?_⟩⟩⟩ <;> cases h <;> rfl

/-- `Long.MAX_VALUE` and `1L`, each a constant that charges nothing, in either order at one unit a
node: the orderings mirror each other, and the sum and the product overflow in both orders. -/
theorem long_swap_operands :
    let l : Expr := .const ⟨.sLong, .long ⟨9223372036854775807, by decide⟩⟩
    let r : Expr := .const ⟨.sLong, .long ⟨1, by decide⟩⟩
    l.eval ⟨1⟩ (ctxOf 0 none) =
        .ok (NumWidth.long.toValue ⟨9223372036854775807, by decide⟩) (ctxOf (0 + 0) none) ∧
      r.eval ⟨1⟩ (ctxOf 0 none) = .ok (NumWidth.long.toValue ⟨1, by decide⟩) (ctxOf (0 + 0) none) ∧
      ((Expr.binOp (.relation .gt) l r).eval ⟨1⟩ (ctxOf 0 none) =
          (Expr.binOp (.relation .lt) r l).eval ⟨1⟩ (ctxOf 0 none) ∧
        (Expr.binOp (.relation .ge) l r).eval ⟨1⟩ (ctxOf 0 none) =
          (Expr.binOp (.relation .le) r l).eval ⟨1⟩ (ctxOf 0 none) ∧
        ∀ op ∈ [ArithOp.plus, .multiply, .max, .min],
          (∀ v s, (Expr.binOp (.arith op) l r).eval ⟨1⟩ (ctxOf 0 none) = .ok v s ↔
            (Expr.binOp (.arith op) r l).eval ⟨1⟩ (ctxOf 0 none) = .ok v s) ∧
          ∀ s, (∃ msg, (Expr.binOp (.arith op) l r).eval ⟨1⟩ (ctxOf 0 none) =
              .error (.error (.arithmeticException msg)) s) ↔
            (∃ msg, (Expr.binOp (.arith op) r l).eval ⟨1⟩ (ctxOf 0 none) =
              .error (.error (.arithmeticException msg)) s)) := by
  intro l r
  have hl : l.eval ⟨1⟩ (ctxOf 0 none) =
      .ok (NumWidth.long.toValue ⟨9223372036854775807, by decide⟩) (ctxOf (0 + 0) none) := rfl
  have hr : r.eval ⟨1⟩ (ctxOf 0 none) = .ok (NumWidth.long.toValue ⟨1, by decide⟩) (ctxOf (0 + 0) none) :=
    rfl
  exact ⟨hl, hr, Expr.eval_swap_operands ⟨1⟩ hl hr⟩

end Swap

/-! ### A ceiling with room for the whole tree -/

/-- A run's outcome with the ceiling `L` set in the context it leaves. -/
def withCeiling {α : Type} (L : Nat) :
    EStateM.Result Abort EvalContext α → EStateM.Result Abort EvalContext α
  | .ok x s => .ok x ⟨{ s.costAccum with limit := some L }⟩
  | .error e s => .error e ⟨{ s.costAccum with limit := some L }⟩

/-- `m` charges at most `n`, and a ceiling that leaves room for `n` is never seen: under it, `m`
does what it does without one. -/
structure Within {α : Type} (n : Nat) (m : EvalM α) : Prop where
  bound : ∀ a, ∃ c, c ≤ a + n ∧ leftContext (m (ctxOf a none)) = ctxOf c none
  transparent : ∀ a L, a + n ≤ L → m (ctxOf a (some L)) = withCeiling L (m (ctxOf a none))

/-- The number of `BinOp` nodes of a tree, each of which charges `eq_const_size` when it runs. -/
def Expr.binOpCount : Expr → Nat
  | .const _ => 0
  | .binOp _ left right => 1 + left.binOpCount + right.binOpCount
  | .ifOp condition trueBranch falseBranch =>
    condition.binOpCount + trueBranch.binOpCount + falseBranch.binOpCount

namespace Within

variable {α β : Type} {n : Nat}

theorem of_pure (x : α) : Within n (pure x : EvalM α) where
  bound a := ⟨a, Nat.le_add_right a n, rfl⟩
  transparent _ _ _ := rfl

theorem of_throw (e : Abort) : Within n (throw e : EvalM α) where
  bound a := ⟨a, Nat.le_add_right a n, rfl⟩
  transparent _ _ _ := rfl

theorem of_liftExcept {ε : Type} (g : ε → Abort) (r : Except ε α) : Within n (liftExcept g r) := by
  cases r
  · exact of_throw _
  · exact of_pure _

theorem mono {m : EvalM α} {n' : Nat} (hm : Within n m) (h : n ≤ n') : Within n' m where
  bound a := let ⟨c, hc, hs⟩ := hm.bound a; ⟨c, by omega, hs⟩
  transparent a L hL := hm.transparent a L (by omega)

theorem ite {c : Prop} [Decidable c] {t e : EvalM α} (ht : Within n t) (he : Within n e) :
    Within n (if c then t else e) := by
  by_cases hc : c
  · rw [if_pos hc]; exact ht
  · rw [if_neg hc]; exact he

theorem addCost (cost : Nat) : Within cost (SigmaRust.addCost cost) where
  bound a := ⟨a + cost, le_rfl, rfl⟩
  transparent a L (h : a + cost ≤ L) := by
    simp [SigmaRust.addCost, CostAccumulator.add, ctxOf, Nat.not_lt.mpr h, withCeiling]

/-- Sequencing adds the charges. -/
theorem bind {m : EvalM α} {f : α → EvalM β} {n₁ n₂ : Nat} (hm : Within n₁ m)
    (hf : ∀ x, Within n₂ (f x)) (h : n₁ + n₂ ≤ n) : Within n (m >>= f) where
  bound a := by
    obtain ⟨c₁, hc₁, hs₁⟩ := hm.bound a
    cases hU : m (ctxOf a none) with
    | ok x s₁ =>
      obtain rfl : s₁ = ctxOf c₁ none := by rw [hU] at hs₁; exact hs₁
      obtain ⟨c, hc, hs⟩ := (hf x).bound c₁
      exact ⟨c, by omega, by rw [EvalM.bind_of_ok hU]; exact hs⟩
    | error e s₁ =>
      rw [hU] at hs₁
      exact ⟨c₁, by omega, by rw [EvalM.bind_of_error hU]; exact hs₁⟩
  transparent a L hL := by
    obtain ⟨c₁, hc₁, hs₁⟩ := hm.bound a
    have hceil := hm.transparent a L (by omega)
    cases hU : m (ctxOf a none) with
    | ok x s₁ =>
      obtain rfl : s₁ = ctxOf c₁ none := by rw [hU] at hs₁; exact hs₁
      rw [hU] at hceil
      rw [EvalM.bind_of_ok hceil, EvalM.bind_of_ok hU]
      exact (hf x).transparent c₁ L (by omega)
    | error e s₁ =>
      rw [hU] at hceil
      rw [EvalM.bind_of_error hceil, EvalM.bind_of_error hU]
      rfl

/-- A step that charges nothing after `m`. -/
theorem bind_free {m : EvalM α} {f : α → EvalM β} (hm : Within n m) (hf : ∀ x, Within 0 (f x)) :
    Within n (m >>= f) :=
  bind hm hf (Nat.le_of_eq (Nat.add_zero n))

/-- A step that charges nothing before `f`. -/
theorem free_bind {m : EvalM α} {f : α → EvalM β} (hm : Within 0 m) (hf : ∀ x, Within n (f x)) :
    Within n (m >>= f) :=
  bind hm hf (Nat.le_of_eq (Nat.zero_add n))

/-- `BinOpKind::Relation` arms charge what the right operand charges. -/
theorem evalRelation (op : RelationOp) (lv : Value) {rv : EvalM Value} {r : Nat}
    (hr : Within r rv) : Within r (BinOp.evalRelation op lv rv) := by
  have hright : Within r (rv >>= fun v : Value =>
      liftExtract v.tryExtractBool >>= fun b : Bool => pure (Value.boolean b)) :=
    bind_free hr fun _ => free_bind (of_liftExcept _ _) fun _ => of_pure _
  cases op
  case and | or => exact free_bind (of_liftExcept _ _) fun _ => ite hright (of_pure _)
  case eq | neq => exact bind_free hr fun _ => of_pure _
  all_goals exact bind_free hr fun _ => of_liftExcept _ _

/-- `BinOpKind::Arith` arms charge what the right operand charges. -/
theorem evalArith (op : ArithOp) (lv : Value) {rv : EvalM Value} {r : Nat} (hr : Within r rv) :
    Within r (BinOp.evalArith op lv rv) := by
  unfold BinOp.evalArith
  split
  · exact bind_free hr fun _ => of_liftExcept _ _
  all_goals exact of_throw _

end Within

/-- Every evaluation charges at most `eq_const_size` a `BinOp` node, and is unchanged by a ceiling
with room for that much. -/
theorem Expr.eval_within (costs : Costs) (e : Expr) :
    Within (costs.eqConstSize * e.binOpCount) (e.eval costs) := by
  induction e with
  | const c => exact Within.of_pure _
  | binOp kind left right ihl ihr =>
    have hsum : costs.eqConstSize * (1 + left.binOpCount + right.binOpCount) =
        costs.eqConstSize + (costs.eqConstSize * left.binOpCount +
          costs.eqConstSize * right.binOpCount) := by
      rw [Nat.mul_add, Nat.mul_add, Nat.mul_one, Nat.add_assoc]
    refine Within.bind (Within.addCost _) (fun _ => Within.bind ihl (fun lv => ?_) le_rfl)
      (Nat.le_of_eq hsum.symm)
    cases kind
    · exact Within.evalArith _ lv ihr
    · exact Within.evalRelation _ lv ihr
  | ifOp condition trueBranch falseBranch ihc iht ihf =>
    have hsum : costs.eqConstSize * (condition.binOpCount + trueBranch.binOpCount +
        falseBranch.binOpCount) = costs.eqConstSize * condition.binOpCount +
          (costs.eqConstSize * trueBranch.binOpCount + costs.eqConstSize * falseBranch.binOpCount) := by
      rw [Nat.mul_add, Nat.mul_add, Nat.add_assoc]
    refine Within.bind ihc (fun _ => Within.free_bind (Within.of_liftExcept _ _)
      fun _ => Within.ite (iht.mono (Nat.le_add_right _ _)) (ihf.mono (Nat.le_add_left _ _)))
      (Nat.le_of_eq hsum.symm)

/-- A ceiling with room for `eq_const_size` a `BinOp` node of the tree is never seen: under it,
every evaluation, of any tree and with any outcome, returns what it returns without a ceiling (the
same value, or the same error or panic, with the same accumulator), and never the cost-limit error
unless the evaluation without a ceiling fails with it too. Evaluation never charges more. -/
theorem Expr.eval_ceiling_transparent (costs : Costs) (e : Expr) (a : Nat) {L : Nat}
    (hL : a + costs.eqConstSize * e.binOpCount ≤ L) :
    e.eval costs (ctxOf a (some L)) = withCeiling L (e.eval costs (ctxOf a none)) ∧
      ∃ c, c ≤ a + costs.eqConstSize * e.binOpCount ∧
        leftContext (e.eval costs (ctxOf a none)) = ctxOf c none :=
  ⟨(e.eval_within costs).transparent a L hL, (e.eval_within costs).bound a⟩

/-- `1L / 0L` at one unit a node under the ceiling 1: the same `ArithmeticException` as without one. -/
theorem eval_ceiling_transparent_div_zero :
    (Expr.binOp (.arith .divide) (.const ⟨.sLong, .long ⟨1, by decide⟩⟩)
        (.const ⟨.sLong, .long ⟨0, by decide⟩⟩)).eval ⟨1⟩ (ctxOf 0 (some 1)) =
      withCeiling 1 ((Expr.binOp (.arith .divide) (.const ⟨.sLong, .long ⟨1, by decide⟩⟩)
        (.const ⟨.sLong, .long ⟨0, by decide⟩⟩)).eval ⟨1⟩ (ctxOf 0 none)) ∧
    ∃ c, c ≤ 0 + 1 * (Expr.binOp (.arith .divide) (.const ⟨.sLong, .long ⟨1, by decide⟩⟩)
        (.const ⟨.sLong, .long ⟨0, by decide⟩⟩)).binOpCount ∧
      leftContext ((Expr.binOp (.arith .divide) (.const ⟨.sLong, .long ⟨1, by decide⟩⟩)
        (.const ⟨.sLong, .long ⟨0, by decide⟩⟩)).eval ⟨1⟩ (ctxOf 0 none)) = ctxOf c none :=
  Expr.eval_ceiling_transparent ⟨1⟩ _ 0 (by decide)

/-! ### The cost table only scales the charge -/

/-- A run's outcome with the accumulator `c` of the context it leaves replaced by `a + k * c`. -/
def rescale {α : Type} (a k : Nat) :
    EStateM.Result Abort EvalContext α → EStateM.Result Abort EvalContext α
  | .ok x s => .ok x ⟨{ s.costAccum with accum := a + k * s.costAccum.accum }⟩
  | .error e s => .error e ⟨{ s.costAccum with accum := a + k * s.costAccum.accum }⟩

/-- `m'` is `m` at `k` times the charge: from `a + k * c` it does what `m` does from `c`, and
leaves the accumulator at `a` plus `k` times where `m` leaves it. -/
def Scaled {α : Type} (k : Nat) (m m' : EvalM α) : Prop :=
  ∀ a c, m' (ctxOf (a + k * c) none) = rescale a k (m (ctxOf c none))

namespace Scaled

variable {α β : Type} {k : Nat}

theorem of_pure (x : α) : Scaled k (pure x : EvalM α) (pure x) := fun _ _ => rfl

theorem of_throw (e : Abort) : Scaled k (throw e : EvalM α) (throw e) := fun _ _ => rfl

theorem of_liftExcept {ε : Type} (g : ε → Abort) (r : Except ε α) :
    Scaled k (liftExcept g r) (liftExcept g r) := by
  cases r
  · exact of_throw _
  · exact of_pure _

theorem ite {c : Prop} [Decidable c] {t t' e e' : EvalM α} (ht : Scaled k t t')
    (he : Scaled k e e') : Scaled k (if c then t else e) (if c then t' else e') := by
  by_cases hc : c
  · rw [if_pos hc, if_pos hc]; exact ht
  · rw [if_neg hc, if_neg hc]; exact he

/-- Charging `k` is charging `1` at `k` times the charge. -/
theorem addCost : Scaled k (SigmaRust.addCost 1) (SigmaRust.addCost k) := fun a c => by
  show EStateM.Result.ok () (ctxOf (a + k * c + k) none) = .ok () (ctxOf (a + k * (c + 1)) none)
  rw [Nat.mul_succ, Nat.add_assoc]

/-- Sequencing keeps the scale when the first computation leaves a context without a ceiling, as
every metered one does. -/
theorem bind {m m' : EvalM α} {f f' : α → EvalM β} (hmm : Metered m) (hm : Scaled k m m')
    (hf : ∀ x, Scaled k (f x) (f' x)) : Scaled k (m >>= f) (m' >>= f') := fun a c => by
  obtain ⟨c', -, hc⟩ := hmm.frame c
  cases h : m (ctxOf c none) with
  | ok x s =>
    obtain rfl : s = ctxOf c' none := by rw [h] at hc; exact hc
    have h' : m' (ctxOf (a + k * c) none) = .ok x (ctxOf (a + k * c') none) := by rw [hm, h]; rfl
    rw [EvalM.bind_of_ok h', EvalM.bind_of_ok h, hf x]
  | error e s =>
    have h' : m' (ctxOf (a + k * c) none) =
        .error e ⟨{ s.costAccum with accum := a + k * s.costAccum.accum }⟩ := by rw [hm, h]; rfl
    rw [EvalM.bind_of_error h', EvalM.bind_of_error h]
    rfl

/-- `BinOpKind::Relation` arms. -/
theorem evalRelation (op : RelationOp) (lv : Value) {rv rv' : EvalM Value} (hrm : Metered rv)
    (hr : Scaled k rv rv') : Scaled k (BinOp.evalRelation op lv rv) (BinOp.evalRelation op lv rv') := by
  have hright : Scaled k (rv >>= fun v : Value =>
      liftExtract v.tryExtractBool >>= fun b : Bool => pure (Value.boolean b))
      (rv' >>= fun v : Value =>
      liftExtract v.tryExtractBool >>= fun b : Bool => pure (Value.boolean b)) :=
    bind hrm hr fun _ => bind (Metered.of_liftExcept _ _) (of_liftExcept _ _) fun _ => of_pure _
  cases op
  case and | or =>
    exact bind (Metered.of_liftExcept _ _) (of_liftExcept _ _) fun _ => ite hright (of_pure _)
  case eq | neq => exact bind hrm hr fun _ => of_pure _
  all_goals exact bind hrm hr fun _ => of_liftExcept _ _

/-- `BinOpKind::Arith` arms. -/
theorem evalArith (op : ArithOp) (lv : Value) {rv rv' : EvalM Value} (hrm : Metered rv)
    (hr : Scaled k rv rv') : Scaled k (BinOp.evalArith op lv rv) (BinOp.evalArith op lv rv') := by
  unfold BinOp.evalArith
  split
  · exact bind hrm hr fun _ => of_liftExcept _ _
  all_goals exact of_throw _

end Scaled

/-- Every evaluation at `eq_const_size = k` is the evaluation at cost 1, at `k` times the
charge. -/
theorem Expr.eval_scaled (k : Nat) (e : Expr) : Scaled k (e.eval ⟨1⟩) (e.eval ⟨k⟩) := by
  induction e with
  | const c => exact Scaled.of_pure _
  | binOp kind left right ihl ihr =>
    refine Scaled.bind (Metered.addCost _) Scaled.addCost fun _ =>
      Scaled.bind (left.eval_metered _) ihl fun lv => ?_
    cases kind
    · exact Scaled.evalArith _ lv (right.eval_metered _) ihr
    · exact Scaled.evalRelation _ lv (right.eval_metered _) ihr
  | ifOp condition trueBranch falseBranch ihc iht ihf =>
    exact Scaled.bind (condition.eval_metered _) ihc fun _ =>
      Scaled.bind (Metered.of_liftExcept _ _) (Scaled.of_liftExcept _ _) fun _ => Scaled.ite iht ihf

/-- The cost table only scales the charge: from any accumulator `a`, evaluation at
`eq_const_size = k` returns what evaluation at cost 1 from `0` returns, the same value or the same
error or panic, and leaves the accumulator at `a + k * n`, where `n`, the charge of the run at cost
1, is the number of `BinOp` nodes the evaluation visits. -/
theorem Expr.eval_rescale (k : Nat) (e : Expr) (a : Nat) :
    e.eval ⟨k⟩ (ctxOf a none) = rescale a k (e.eval ⟨1⟩ (ctxOf 0 none)) :=
  e.eval_scaled k a 0

end SigmaRust
