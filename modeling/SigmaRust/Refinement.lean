import SigmaRust.Typing
import SigmaRust.Ceiling

/-! The evaluator refines an exact semantics. Over unbounded integers a tree means what its
operators say: `Plus`, `Minus` and `Multiply` the exact sum, difference and product, `Divide` the
quotient rounded toward zero, `Max` and `Min` the larger and the smaller operand, the orderings the
order of two integers, `Eq` and `NEq` structural equality, and `And`, `Or` and `If` their boolean
meaning, with only the operands that the left one or the condition does not decide. `Expr.denote`
is that meaning, and has no value where an arithmetic node's exact result is not a value of its
width or divides by zero. `Expr.charges` counts the `BinOp` nodes the semantics enters.

On a well-typed tree, evaluation without a ceiling follows it step by step (`Follows`): where the
tree has a value, `eval` returns the value of the code that reads as it, with the accumulator raised
by `eq_const_size` per node entered; where it has none, `eval` returns an `ArithmeticException`.
Under a ceiling no lower than the start, the same value comes back exactly when its charge fits, and
the cost-limit error otherwise. Fixed-width checked arithmetic and the cost meter change nothing but
where evaluation stops. -/

namespace SigmaRust

/-- A value of the exact semantics: an integer of a width with no bound on it, a boolean, or a value
of any other variant. -/
inductive Exact where
  | num (w : NumWidth) (x : Int)
  | bool (b : Bool)
  | other (v : Value)
deriving DecidableEq

namespace Exact

/-- How a value of the code reads in the exact semantics. -/
def ofValue : Value → Exact
  | .boolean b => bool b
  | .byte x => num .byte x.val
  | .short x => num .short x.val
  | .int x => num .int x.val
  | .long x => num .long x.val
  | v => other v

/-- The value of the code that reads as an exact value, if there is one: an integer must lie in
its width's range. -/
def toValue? : Exact → Option Value
  | num w x => (SignedInt.ofInt? x).map w.toValue
  | bool b => some (.boolean b)
  | other v => some v

@[simp] theorem ofValue_toValue (w : NumWidth) (x : SignedInt w.bits) :
    ofValue (w.toValue x) = num w x.val := by
  cases w <;> rfl

theorem toValue?_ofValue (v : Value) : (ofValue v).toValue? = some v := by
  cases v <;> simp [ofValue, toValue?, NumWidth.toValue, SignedInt.ofInt?_eq_some]

theorem ofValue_injective : Function.Injective ofValue := fun u v h => by
  have hv := toValue?_ofValue v
  rwa [← h, toValue?_ofValue, Option.some.injEq] at hv

/-- `==` on two values of the code is equality of their readings. -/
theorem beq_eq_decide (u v : Value) : (u == v) = decide (ofValue u = ofValue v) := by
  rw [Bool.eq_iff_iff, beq_iff_eq, decide_eq_true_iff, ofValue_injective.eq_iff]

end Exact

/-- A value of the code of type `T` that reads as `x`. -/
def Reads (T : SType) (x : Exact) (v : Value) : Prop := Exact.ofValue v = x ∧ v.hasType T = true

/-- An integer of width `w` reads as its own value. -/
theorem Reads.num {w : NumWidth} {x : Exact} {v : Value} (h : Reads w.tpe x v) :
    ∃ l : SignedInt w.bits, v = w.toValue l ∧ x = .num w l.val := by
  obtain ⟨l, rfl⟩ := NumWidth.eq_toValue_of_hasType h.2
  exact ⟨l, rfl, h.1.symm.trans (Exact.ofValue_toValue w l)⟩

/-- A boolean reads as its own value. -/
theorem Reads.bool {x : Exact} {v : Value} (h : Reads .sBoolean x v) :
    ∃ b, v = .boolean b ∧ x = .bool b := by
  obtain ⟨b, rfl⟩ := Value.eq_boolean_of_hasType h.2
  exact ⟨b, rfl, h.1.symm⟩

/-- The exact semantics of an arithmetic operator on two integers: the exact result, as an integer
of the left operand's width, and none when it is not a value of that width or the divisor is
zero. -/
def ArithOp.denote (op : ArithOp) : Exact → Exact → Option Exact
  | .num w x, .num _ y => (op.exactResult x y).bind fun z =>
    if InRange w.bits z then some (.num w z) else none
  | _, _ => none

/-- An ordering on two exact values: the order of two integers. -/
def RelationOp.compare (op : RelationOp) : Exact → Exact → Option Exact
  | .num _ x, .num _ y => some (.bool (op.holds x y))
  | _, _ => none

/-- The exact semantics of a relation on the left operand's value and the right operand's outcome:
`Eq` and `NEq` compare the two values, an ordering compares two integers, and `And` and `Or` are
the right operand unless the left one decides. -/
def RelationOp.denote (op : RelationOp) (l : Exact) (r : Option Exact) : Option Exact :=
  match op with
  | .eq => r.map fun r => .bool (decide (l = r))
  | .neq => r.map fun r => .bool (decide (l ≠ r))
  | .and => match l with
    | .bool true => r
    | .bool false => some (.bool false)
    | _ => none
  | .or => match l with
    | .bool true => some (.bool true)
    | .bool false => r
    | _ => none
  | .gt | .ge | .lt | .le => r.bind (op.compare l)

/-- Whether a relation reads its right operand after the left one's outcome `l`: `And` does not
after `false`, nor `Or` after `true`. -/
def RelationOp.readsRight (op : RelationOp) (l : Option Exact) : Bool :=
  match op with
  | .and => l != some (.bool false)
  | .or => l != some (.bool true)
  | _ => true

/-- The exact semantics of a tree: none where a node it enters has no exact value of its type. -/
def Expr.denote : Expr → Option Exact
  | .const c => some (.ofValue c.v)
  | .binOp (.arith op) left right => left.denote.bind fun l => right.denote.bind (op.denote l)
  | .binOp (.relation op) left right => left.denote.bind fun l => op.denote l right.denote
  | .ifOp condition trueBranch falseBranch => condition.denote.bind fun
    | .bool true => trueBranch.denote
    | .bool false => falseBranch.denote
    | _ => none

/-- The number of `BinOp` nodes the exact semantics enters. -/
def Expr.charges : Expr → Nat
  | .const _ => 0
  | .binOp (.arith _) left right => 1 + (left.charges + right.charges)
  | .binOp (.relation op) left right =>
    1 + (left.charges + if op.readsRight left.denote then right.charges else 0)
  | .ifOp condition trueBranch falseBranch => condition.charges +
    match condition.denote with
    | some (.bool true) => trueBranch.charges
    | _ => falseBranch.charges

section Follows

variable (c : Nat)

/-- `m` follows the outcome `o` of the exact semantics with `k` charges of `c`: from every
accumulator without a ceiling, it returns a value related by `R` to `x`, with the accumulator raised
by `c * k`, when `o` is `some x`, and stops with an `ArithmeticException` when `o` is none. -/
def Follows {α β : Type} (R : β → α → Prop) (m : EvalM α) : Option β → Nat → Prop
  | some x, k => ∀ a, ∃ v, m (ctxOf a none) = .ok v (ctxOf (a + c * k) none) ∧ R x v
  | none, _ => ∀ a, ∃ msg s, m (ctxOf a none) = .error (.error (.arithmeticException msg)) s

namespace Follows

variable {c} {α β γ δ : Type} {R : β → α → Prop} {S : δ → γ → Prop} {k j : Nat}

theorem pure {x : β} {v : α} (h : R x v) : Follows c R (Pure.pure v) (some x) 0 :=
  fun a => ⟨v, by rw [Nat.mul_zero, Nat.add_zero]; rfl, h⟩

theorem throw {msg : String} :
    Follows c R (MonadExcept.throw (.error (.arithmeticException msg)) : EvalM α) none k :=
  fun _ => ⟨msg, _, rfl⟩

theorem charges_eq {m : EvalM α} {o : Option β} (h : Follows c R m o k) (hk : k = j) :
    Follows c R m o j :=
  hk ▸ h

/-- Sequencing follows `Option.bind`: the charges add up. -/
theorem bind {m : EvalM α} {f : α → EvalM γ} {o : Option β} {g : β → Option δ}
    (hm : Follows c R m o k) (hf : ∀ x v, o = some x → R x v → Follows c S (f v) (g x) j) :
    Follows c S (m >>= f) (o.bind g) (k + j) := by
  cases o with
  | none => exact fun a => let ⟨msg, s, h⟩ := hm a; ⟨msg, s, EvalM.bind_of_error h⟩
  | some x =>
    have hstep : ∀ a, ∃ v, (m >>= f) (ctxOf a none) = f v (ctxOf (a + c * k) none) ∧
        Follows c S (f v) (g x) j := fun a =>
      let ⟨v, hv, hR⟩ := hm a; ⟨v, EvalM.bind_of_ok hv, hf x v rfl hR⟩
    show Follows c S (m >>= f) (g x) (k + j)
    revert hstep
    cases g x with
    | none => exact fun hstep a => let ⟨v, hv, hfv⟩ := hstep a; hv ▸ hfv (a + c * k)
    | some y =>
      intro hstep a
      obtain ⟨v, hv, hfv⟩ := hstep a
      obtain ⟨u, hu, hS⟩ := hfv (a + c * k)
      exact ⟨u, by rw [hv, hu, Nat.mul_add, Nat.add_assoc], hS⟩

/-- Sequencing with a pure function follows `Option.map`. -/
theorem bind_pure {m : EvalM α} {f : α → γ} {o : Option β} {g : β → δ} (hm : Follows c R m o k)
    (hf : ∀ x v, R x v → S (g x) (f v)) :
    Follows c S (m >>= fun v => Pure.pure (f v)) (o.map g) k := by
  rw [Option.map_eq_bind]
  exact hm.bind (j := 0) fun x v _ h => pure (hf x v h)

/-- A `BinOp` node follows `o.bind g` when its left operand follows `o` and the arm each value
selects follows `g`; the node itself is one more charge. -/
theorem binOp_eval {costs : Costs} {kind : BinOpKind} {left rv : EvalM Value} {o : Option β}
    {g : β → Option δ} {R : β → Value → Prop} {S : δ → Value → Prop}
    (hl : Follows costs.eqConstSize R left o k)
    (harm : ∀ x lv, o = some x → R x lv → Follows costs.eqConstSize S
      (match kind with
        | .relation op => BinOp.evalRelation op lv rv
        | .arith op => BinOp.evalArith op lv rv) (g x) j) :
    Follows costs.eqConstSize S (BinOp.eval costs kind left rv) (o.bind g) (1 + (k + j)) := by
  have hcharge : Follows costs.eqConstSize (fun _ _ => True) (addCost costs.eqConstSize)
      (some ()) 1 := fun a => ⟨(), by rw [Nat.mul_one]; rfl, trivial⟩
  exact hcharge.bind (g := fun _ => o.bind g) fun _ _ _ _ => hl.bind harm

/-- Reading a boolean out of the right operand, as `And` and `Or` do. -/
theorem readBool {rv : EvalM Value} {o : Option Exact} (h : Follows c (Reads .sBoolean) rv o k) :
    Follows c (Reads .sBoolean)
      (do return .boolean (← liftExtract (← rv).tryExtractBool) : EvalM Value) o k := by
  rw [← Option.bind_some o]
  refine h.bind (j := 0) fun x v _ hv => ?_
  obtain ⟨b, rfl⟩ := Value.eq_boolean_of_hasType hv.2
  exact pure hv

end Follows

end Follows

section Arms

variable {c k : Nat} {rv : EvalM Value} {o : Option Exact}

/-- An arithmetic operator on two integers of one width follows its exact semantics. -/
theorem ArithOp.follows_evalFn (op : ArithOp) (w : NumWidth) (x y : SignedInt w.bits) :
    Follows c (Reads w.tpe) (liftExcept .error (op.evalFn w x (w.toValue y)))
      (op.denote (.num w x.val) (.num w y.val)) 0 := by
  obtain ⟨msg, hfn⟩ := op.evalFn_toValue w x y
  rw [hfn, ArithOp.denote]
  rcases op.exactResult x.val y.val with _ | z
  · exact Follows.throw
  · by_cases hz : InRange w.bits z
    · simp only [Option.some_bind, SignedInt.ofInt?, dif_pos hz, if_pos hz]
      exact Follows.pure ⟨Exact.ofValue_toValue w _, NumWidth.toValue_hasType w _⟩
    · simp only [Option.some_bind, SignedInt.ofInt?, dif_neg hz, if_neg hz]
      exact Follows.throw

/-- The arithmetic arm on an integer left operand follows its exact semantics. -/
theorem BinOp.follows_evalArith (op : ArithOp) {w : NumWidth} (x : SignedInt w.bits)
    (hr : Follows c (Reads w.tpe) rv o k) :
    Follows c (Reads w.tpe) (BinOp.evalArith op (w.toValue x) rv)
      (o.bind (op.denote (.num w x.val))) k := by
  simp only [BinOp.evalArith, Value.numView_toValue]
  refine (hr.bind fun r v _ hv => ?_).charges_eq (Nat.add_zero k)
  obtain ⟨y, rfl, rfl⟩ := hv.num
  exact op.follows_evalFn w x y

/-- An ordering on an integer left operand follows its exact semantics. -/
theorem BinOp.follows_ordering {op : RelationOp} (hop : op ∈ [RelationOp.gt, .ge, .lt, .le])
    {w : NumWidth} (x : SignedInt w.bits) (hr : Follows c (Reads w.tpe) rv o k) :
    Follows c (Reads .sBoolean) (BinOp.evalRelation op (w.toValue x) rv)
      (op.denote (.num w x.val) o) k := by
  have hden : op.denote (.num w x.val) o = o.bind (op.compare (.num w x.val)) := by
    simp only [List.mem_cons, List.mem_singleton, List.not_mem_nil, or_false] at hop
    rcases hop with rfl | rfl | rfl | rfl <;> rfl
  rw [BinOp.evalRelation_ordering hop, hden]
  refine (hr.bind fun r v _ hv => ?_).charges_eq (Nat.add_zero k)
  obtain ⟨y, rfl, rfl⟩ := hv.num
  rw [evalCompare_toValue]
  exact Follows.pure ⟨rfl, rfl⟩

/-- `Eq` and `NEq` follow structural equality of the exact values. -/
theorem BinOp.follows_equality {op : RelationOp} (hop : op = .eq ∨ op = .neq) {T : SType}
    (lv : Value) (hr : Follows c (Reads T) rv o k) :
    Follows c (Reads .sBoolean) (BinOp.evalRelation op lv rv) (op.denote (Exact.ofValue lv) o) k := by
  rcases hop with rfl | rfl
  · exact hr.bind_pure (S := Reads .sBoolean) (f := fun v => Value.boolean (lv == v))
      (g := fun r => Exact.bool (decide (Exact.ofValue lv = r))) fun r v hv =>
        ⟨congrArg Exact.bool (by rw [Exact.beq_eq_decide, hv.1]), rfl⟩
  · exact hr.bind_pure (S := Reads .sBoolean) (f := fun v => Value.boolean (lv != v))
      (g := fun r => Exact.bool (decide (Exact.ofValue lv ≠ r))) fun r v hv =>
        ⟨congrArg Exact.bool (by rw [bne, Exact.beq_eq_decide, hv.1, decide_not]), rfl⟩

end Arms

/-- Evaluation of a well-typed tree follows its exact semantics, with one charge per `BinOp` node
the semantics enters. -/
theorem Expr.follows_denote (costs : Costs) {e : Expr} (he : e.WellTyped) :
    Follows costs.eqConstSize (Reads e.tpe) (e.eval costs) e.denote e.charges := by
  induction he with
  | const hc => exact Follows.pure ⟨rfl, hc⟩
  | @arith op left right w _ _ hlt hrt ihl ihr =>
    show Follows _ (Reads left.tpe) _ _ _
    rw [hlt]
    refine Follows.binOp_eval (hlt ▸ ihl) fun x lv _ hlv => ?_
    obtain ⟨l, rfl, rfl⟩ := hlv.num
    exact BinOp.follows_evalArith op l (hrt ▸ ihr)
  | @ordering op left right w hop _ _ hlt hrt ihl ihr =>
    have hk : op.readsRight left.denote = true := by
      simp only [List.mem_cons, List.mem_singleton, List.not_mem_nil, or_false] at hop
      rcases hop with rfl | rfl | rfl | rfl <;> rfl
    refine Follows.binOp_eval (hlt ▸ ihl) fun x lv _ hlv => ?_
    obtain ⟨l, rfl, rfl⟩ := hlv.num
    rw [hk]
    exact BinOp.follows_ordering hop l (hrt ▸ ihr)
  | @equality op left right hop _ _ _ ihl ihr =>
    have hk : op.readsRight left.denote = true := by rcases hop with rfl | rfl <;> rfl
    refine Follows.binOp_eval ihl fun x lv _ hlv => ?_
    rw [hk, ← hlv.1]
    exact BinOp.follows_equality hop lv ihr
  | @logical op left right hop _ _ hlt hrt ihl ihr =>
    refine Follows.binOp_eval (hlt ▸ ihl) fun x lv hx hlv => ?_
    obtain ⟨b, rfl, rfl⟩ := hlv.bool
    rw [hx]
    rcases hop with rfl | rfl <;> cases b
    case inl.false | inr.true => exact Follows.pure ⟨rfl, rfl⟩
    all_goals exact Follows.readBool (hrt ▸ ihr)
  | @ifOp condition trueBranch falseBranch _ _ _ hct htf ihc iht ihf =>
    refine (hct ▸ ihc).bind fun x v hx hv => ?_
    obtain ⟨b, rfl, rfl⟩ := hv.bool
    rw [hx]
    cases b
    · exact htf ▸ ihf
    · exact iht

/-- Without a ceiling, a well-typed tree with an exact value evaluates to the value of the code
that reads as it, charging `eq_const_size` for each `BinOp` node the exact semantics enters; a tree
with no exact value evaluates to an `ArithmeticException`. -/
theorem Expr.eval_denote (costs : Costs) {e : Expr} (he : e.WellTyped) (a : Nat) :
    (∀ x, e.denote = some x → ∃ v, e.eval costs (ctxOf a none) =
        .ok v (ctxOf (a + costs.eqConstSize * e.charges) none) ∧ Exact.ofValue v = x) ∧
    (e.denote = none → ∃ msg s, e.eval costs (ctxOf a none) =
        .error (.error (.arithmeticException msg)) s) := by
  have h := Expr.follows_denote costs he
  refine ⟨fun x hx => ?_, fun hx => ?_⟩ <;> rw [hx] at h
  · obtain ⟨v, hv, hr⟩ := h a
    exact ⟨v, hv, hr.1⟩
  · exact h a

/-- `7 / 0` on `Int` is well typed, has no exact value, and evaluates to an
`ArithmeticException`. -/
theorem eval_denote_int_div_zero :
    (Expr.binOp (.arith .divide) (.const ⟨.sInt, .int ⟨7, by decide⟩⟩)
      (.const ⟨.sInt, .int ⟨0, by decide⟩⟩)).WellTyped ∧
    (Expr.binOp (.arith .divide) (.const ⟨.sInt, .int ⟨7, by decide⟩⟩)
      (.const ⟨.sInt, .int ⟨0, by decide⟩⟩)).denote = none ∧
    ∃ msg s, (Expr.binOp (.arith .divide) (.const ⟨.sInt, .int ⟨7, by decide⟩⟩)
      (.const ⟨.sInt, .int ⟨0, by decide⟩⟩)).eval ⟨1⟩ (ctxOf 0 none) =
        .error (.error (.arithmeticException msg)) s := by
  have hwt : (Expr.binOp (.arith .divide) (.const ⟨.sInt, .int ⟨7, by decide⟩⟩)
      (.const ⟨.sInt, .int ⟨0, by decide⟩⟩)).WellTyped := .arith .int (.const rfl) (.const rfl) rfl rfl
  exact ⟨hwt, rfl, (Expr.eval_denote ⟨1⟩ hwt 0).2 rfl⟩

/-- Under a ceiling no lower than the start, a well-typed tree with an exact value evaluates to the
value of the code that reads as it when its charge fits under the ceiling, and to the cost-limit
error when it does not; a tree with no exact value evaluates to an `ArithmeticException` or to the
cost-limit error. -/
theorem Expr.eval_denote_under_ceiling (costs : Costs) {e : Expr} (he : e.WellTyped) {a L : Nat}
    (haL : a ≤ L) :
    (∀ x, e.denote = some x →
      (a + costs.eqConstSize * e.charges ≤ L → ∃ v, e.eval costs (ctxOf a (some L)) =
        .ok v (ctxOf (a + costs.eqConstSize * e.charges) (some L)) ∧ Exact.ofValue v = x) ∧
      (L < a + costs.eqConstSize * e.charges →
        ∃ s, e.eval costs (ctxOf a (some L)) = .error costLimit s)) ∧
    (e.denote = none → ∃ s, (∃ msg, e.eval costs (ctxOf a (some L)) =
        .error (.error (.arithmeticException msg)) s) ∨
      e.eval costs (ctxOf a (some L)) = .error costLimit s) := by
  have hc := (Expr.eval_metered costs e).ceiling a L
  have h := Expr.follows_denote costs he
  refine ⟨fun x hx => ?_, fun hx => ?_⟩ <;> rw [hx] at h
  · obtain ⟨v, hv, hr⟩ := h a
    rw [hv] at hc
    exact ⟨fun hle => ⟨v, hc.1 hle, hr.1⟩,
      fun hlt => (hc.2 hlt).resolve_right fun ⟨hLa, _⟩ => absurd haL (Nat.not_le.mpr hLa)⟩
  · obtain ⟨msg, s, hs⟩ := h a
    rw [hs] at hc
    obtain ⟨s', h' | h'⟩ := hc
    · exact ⟨s', .inl ⟨msg, h'⟩⟩
    · exact ⟨s', .inr h'⟩

/-- `1L + 2L` has the exact value `3` and one charge, so under the ceiling `0` it stops with the
cost-limit error. -/
theorem eval_denote_sum_over_ceiling :
    (Expr.binOp (.arith .plus) (.const ⟨.sLong, .long ⟨1, by decide⟩⟩)
      (.const ⟨.sLong, .long ⟨2, by decide⟩⟩)).WellTyped ∧
    (Expr.binOp (.arith .plus) (.const ⟨.sLong, .long ⟨1, by decide⟩⟩)
      (.const ⟨.sLong, .long ⟨2, by decide⟩⟩)).denote = some (.num .long 3) ∧
    ∃ s, (Expr.binOp (.arith .plus) (.const ⟨.sLong, .long ⟨1, by decide⟩⟩)
      (.const ⟨.sLong, .long ⟨2, by decide⟩⟩)).eval ⟨1⟩ (ctxOf 0 (some 0)) = .error costLimit s := by
  have hwt : (Expr.binOp (.arith .plus) (.const ⟨.sLong, .long ⟨1, by decide⟩⟩)
      (.const ⟨.sLong, .long ⟨2, by decide⟩⟩)).WellTyped := .arith .long (.const rfl) (.const rfl) rfl rfl
  exact ⟨hwt, rfl, ((Expr.eval_denote_under_ceiling ⟨1⟩ hwt (Nat.le_refl 0)).1 _ rfl).2 (by decide)⟩

end SigmaRust
