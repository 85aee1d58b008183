import SigmaRust.DataCodec
import SigmaRust.Typing

/-! The wire format of expression trees. `If::sigma_serialize` and `If::sigma_parse`
(`ergo-lib/src/ast/if_op.rs`) write and read the three children with the expression codec, and
nothing else: the `IF` opcode is written and read by the dispatch of `Expr`, and no type of a
child is checked. Their model takes the expression codec as a parameter.

The dispatch of `Expr`, the opcode table and `BinOp`'s payload are not in the sources; they are
modelled from the spec: "each node is encoded as a one-byte opcode followed by node-specific
payload", a constant inline (its type's tag is its op code) or as a reference to the reader's
constant table, and "type-checking is a precondition of deserialization success", so the
dispatch checks every node it reads as the smart constructors would. The writer recurses with a
fuel, the tree's depth, so that its `If` arm can hand itself to `If::sigma_serialize`; the fuel
never runs out, and the writer obeys one equation per node.

Over them, a well-typed tree is read back from what it writes, whatever follows it, by a reader
whose table extends the writer's, and exactly when the depth limit allows it. -/

namespace SigmaRust

open ByteReader

/-- `OpCode`, the first byte of a node. -/
structure OpCode where
  value : UInt8
deriving DecidableEq

namespace OpCode

/-! Modelled from the spec: the values of the op codes (`op_code.rs` is not in the sources);
each is distinct, and above the type tags a constant starts with. -/

/-- `LAST_CONSTANT_CODE`. -/
def lastConstantCode : UInt8 := 112
/-- `CONSTANT_PLACEHOLDER`. -/
def constantPlaceholder : OpCode := ⟨113⟩
/-- `LT`. -/
def lt : OpCode := ⟨143⟩
/-- `LE`. -/
def le : OpCode := ⟨144⟩
/-- `GT`. -/
def gt : OpCode := ⟨145⟩
/-- `GE`. -/
def ge : OpCode := ⟨146⟩
/-- `EQ`. -/
def eq : OpCode := ⟨147⟩
/-- `NEQ`. -/
def neq : OpCode := ⟨148⟩
/-- `IF`. -/
def «if» : OpCode := ⟨149⟩
/-- `MINUS`. -/
def minus : OpCode := ⟨153⟩
/-- `PLUS`. -/
def plus : OpCode := ⟨154⟩
/-- `MULTIPLY`. -/
def multiply : OpCode := ⟨156⟩
/-- `DIVISION`. -/
def division : OpCode := ⟨157⟩
/-- `MIN`. -/
def min : OpCode := ⟨161⟩
/-- `MAX`. -/
def max : OpCode := ⟨162⟩
/-- `BIN_OR`. -/
def binOr : OpCode := ⟨236⟩
/-- `BIN_AND`. -/
def binAnd : OpCode := ⟨237⟩

end OpCode

/-- `From<ArithOp> for OpCode`. -/
def ArithOp.opCode : ArithOp → OpCode
  | .plus => .plus
  | .minus => .minus
  | .multiply => .multiply
  | .divide => .division
  | .max => .max
  | .min => .min

/-- `From<RelationOp> for OpCode`. -/
def RelationOp.opCode : RelationOp → OpCode
  | .eq => .eq
  | .neq => .neq
  | .ge => .ge
  | .gt => .gt
  | .le => .le
  | .lt => .lt
  | .and => .binAnd
  | .or => .binOr

/-- `From<BinOpKind> for OpCode`. -/
def BinOpKind.opCode : BinOpKind → OpCode
  | .arith op => op.opCode
  | .relation op => op.opCode

/-- Modelled from the spec: the operator an op code names, for the dispatch of `Expr`. -/
def BinOpKind.ofOpCode (code : UInt8) : Option BinOpKind :=
  ([ArithOp.plus, .minus, .multiply, .divide, .max, .min].map BinOpKind.arith ++
    [RelationOp.eq, .neq, .ge, .gt, .le, .lt, .and, .or].map BinOpKind.relation).find?
    fun kind => kind.opCode.value = code

/-- An operator's op code names it, and is neither a type tag, nor `CONSTANT_PLACEHOLDER`, nor
`IF`. -/
theorem BinOpKind.ofOpCode_opCode (kind : BinOpKind) :
    BinOpKind.ofOpCode kind.opCode.value = some kind ∧
      ¬ kind.opCode.value ≤ OpCode.lastConstantCode ∧
      kind.opCode.value ≠ OpCode.constantPlaceholder.value ∧ kind.opCode.value ≠ OpCode.if.value := by
  rcases kind with op | op <;> cases op <;> decide

/-! ## The `If` and `BinOp` payloads -/

/-- `If::sigma_serialize`: the condition, the true branch and the false branch. -/
def If.sigmaSerialize (exprSerialize : Expr → Except IoError (List UInt8))
    (condition trueBranch falseBranch : Expr) : Except IoError (List UInt8) := do
  let c ← exprSerialize condition
  let t ← exprSerialize trueBranch
  let f ← exprSerialize falseBranch
  return c ++ t ++ f

/-- `If::sigma_parse`: three expressions, in the order they are written. -/
def If.sigmaParse (exprParse : ByteReader Expr) : ByteReader Expr := do
  let condition ← exprParse
  let trueBranch ← exprParse
  let falseBranch ← exprParse
  return .ifOp condition trueBranch falseBranch

/-- Modelled from the spec: `BinOp`'s payload, "left + right". -/
def BinOp.sigmaSerialize (exprSerialize : Expr → Except IoError (List UInt8))
    (left right : Expr) : Except IoError (List UInt8) := do
  let l ← exprSerialize left
  let r ← exprSerialize right
  return l ++ r

/-- Modelled from the spec: `BinOp`'s payload read, the left operand, then the right one. -/
def BinOp.sigmaParse (exprParse : ByteReader Expr) (kind : BinOpKind) : ByteReader Expr := do
  let left ← exprParse
  let right ← exprParse
  return .binOp kind left right

/-! ## The type check of the reader -/

/-- The integer types: the `T` of `eval_plus` and its siblings. -/
def SType.isInteger : SType → Bool
  | .sByte | .sShort | .sInt | .sLong => true
  | _ => false

/-- Modelled from the spec: the operand types a `BinOp` constructor accepts, "both operands to
share a numeric type for arithmetic, `SBoolean` for `And`/`Or`, and any-matching for
`Eq`/`NEq`; relational ordering is defined only on integer variants". -/
def BinOpKind.checkTypes : BinOpKind → SType → SType → Bool
  | .arith _, l, r => l.isInteger && l == r
  | .relation .eq, l, r | .relation .neq, l, r => l == r
  | .relation .and, l, r | .relation .or, l, r => l == .sBoolean && r == .sBoolean
  | .relation _, l, r => l.isInteger && l == r

/-- Modelled from the spec: whether a node's operand types are those its smart constructor
accepts; an `If` "requires `condition : SBoolean` and branch types to match exactly". -/
def Expr.nodeTypesOk : Expr → Bool
  | .const _ => true
  | .binOp kind left right => kind.checkTypes left.tpe right.tpe
  | .ifOp condition trueBranch falseBranch =>
    condition.tpe == .sBoolean && trueBranch.tpe == falseBranch.tpe

/-- Modelled from the spec: a node read is returned only when its operand types check, and is
otherwise a type mismatch. -/
def Expr.checkTypes (node : Expr) : ByteReader Expr :=
  if node.nodeTypesOk then pure node else throw .typeMismatch

/-! ## The dispatch of `Expr` -/

/-- The number of nested nodes of a tree. -/
def Expr.depth : Expr → Nat
  | .const _ => 1
  | .binOp _ left right => max left.depth right.depth + 1
  | .ifOp condition trueBranch falseBranch =>
    max condition.depth (max trueBranch.depth falseBranch.depth) + 1

/-- Modelled from the spec: `Expr::sigma_serialize` of a tree nested at most `n` deep, by a
writer holding a constant table. A constant the table holds is written as `CONSTANT_PLACEHOLDER`
and its index, any other inline; a `BinOp` or an `If` as its op code and its payload. -/
def Expr.sigmaSerializeUpTo (store : ConstantStore) : Nat → Expr → Except IoError (List UInt8)
  | 0, _ => .error ⟨"recursion depth exceeded"⟩
  | _ + 1, .const c =>
    match store.find? c with
    | some id => do return OpCode.constantPlaceholder.value :: (← putUsize id)
    | none => c.sigmaSerialize
  | n + 1, .binOp kind left right => do
    return kind.opCode.value :: (← BinOp.sigmaSerialize (Expr.sigmaSerializeUpTo store n) left right)
  | n + 1, .ifOp condition trueBranch falseBranch => do
    return OpCode.if.value ::
      (← If.sigmaSerialize (Expr.sigmaSerializeUpTo store n) condition trueBranch falseBranch)

/-- Modelled from the spec: `Expr::sigma_serialize` by a writer holding a constant table; the
fuel is the tree's depth. -/
def Expr.sigmaSerializeWith (store : ConstantStore) (e : Expr) : Except IoError (List UInt8) :=
  Expr.sigmaSerializeUpTo store e.depth e

/-- Modelled from the spec: `Expr::sigma_serialize` by a writer with no constant table, every
constant inline: the canonical form. -/
def Expr.sigmaSerialize (e : Expr) : Except IoError (List UInt8) :=
  e.sigmaSerializeWith .empty

/-- Modelled from the spec: `Expr::sigma_parse` with the reader's constant table, reading at most
`depth` nested nodes ("recursion depth exceeded" is a parse error). A first byte up to
`LAST_CONSTANT_CODE` starts an inline constant, read whole by `Constant::sigma_parse`;
`CONSTANT_PLACEHOLDER` names an entry of the table; `IF` and the operators' op codes are followed
by their payload, and the node read is type-checked. -/
def Expr.sigmaParse (store : ConstantStore) : Nat → ByteReader Expr
  | 0 => throw .depthExceeded
  | depth + 1 => do
    let code ← peekU8
    if code ≤ OpCode.lastConstantCode then
      return .const (← Constant.sigmaParse)
    else
      let _ ← getU8
      if code = OpCode.constantPlaceholder.value then
        let id ← getUVlq
        match store.get id with
        | some c => return .const c
        | none => throw (.constantNotFound id)
      else if code = OpCode.if.value then
        Expr.checkTypes (← If.sigmaParse (Expr.sigmaParse store depth))
      else
        match BinOpKind.ofOpCode code with
        | some kind => Expr.checkTypes (← BinOp.sigmaParse (Expr.sigmaParse store depth) kind)
        | none => throw (.invalidOpCode code)

/-- Reading `p` then `q`, each of which either succeeds or fails with `e` by a condition: the two
succeed exactly when both conditions hold. -/
theorem ByteReader.bind_ite_ite {α β : Type} {p : ByteReader α} {q : α → ByteReader β}
    {bytes r₁ r₂ : List UInt8} {a : α} {b : β} {c₁ c₂ : Prop} [Decidable c₁] [Decidable c₂]
    {e : SerializationError} (hp : p bytes = if c₁ then .ok (a, r₁) else .error e)
    (hq : q a r₁ = if c₂ then .ok (b, r₂) else .error e) :
    (p >>= q) bytes = if c₁ ∧ c₂ then .ok (b, r₂) else .error e := by
  by_cases h₁ : c₁
  · rw [if_pos h₁] at hp
    rw [ByteReader.bind_of_ok hp, hq]
    exact if_congr (and_iff_right h₁).symm rfl rfl
  · rw [if_neg h₁] at hp
    rw [ByteReader.bind_of_error hp, if_neg fun h => h₁ h.1]

/-- Reading `p` and returning a function of what it read: it succeeds exactly when `p` does. -/
theorem ByteReader.bind_pure_ite {α β : Type} {p : ByteReader α} {g : α → β} {bytes r : List UInt8}
    {a : α} {c : Prop} [Decidable c] {e : SerializationError}
    (hp : p bytes = if c then .ok (a, r) else .error e) :
    (p >>= fun x => pure (g x)) bytes = if c then .ok (g a, r) else .error e := by
  by_cases h : c
  · rw [if_pos h] at hp
    rw [ByteReader.bind_of_ok hp, if_pos h]
    rfl
  · rw [if_neg h] at hp
    rw [ByteReader.bind_of_error hp, if_neg h]

/-! ## `If::sigma_parse` and `If::sigma_serialize` -/

namespace If

variable {exprSerialize : Expr → Except IoError (List UInt8)} {exprParse : ByteReader Expr}

theorem sigmaSerialize_eq {condition trueBranch falseBranch : Expr} {c t f : List UInt8}
    (hc : exprSerialize condition = .ok c) (ht : exprSerialize trueBranch = .ok t)
    (hf : exprSerialize falseBranch = .ok f) :
    sigmaSerialize exprSerialize condition trueBranch falseBranch = .ok (c ++ t ++ f) := by
  simp only [sigmaSerialize, hc, ht, hf]
  rfl

theorem sigmaSerialize_eq_ok {condition trueBranch falseBranch : Expr} {bytes : List UInt8}
    (h : sigmaSerialize exprSerialize condition trueBranch falseBranch = .ok bytes) :
    ∃ c t f, exprSerialize condition = .ok c ∧ exprSerialize trueBranch = .ok t ∧
      exprSerialize falseBranch = .ok f ∧ bytes = c ++ t ++ f := by
  obtain ⟨c, hc, h⟩ := except_bind_eq_ok.mp h
  obtain ⟨t, ht, h⟩ := except_bind_eq_ok.mp h
  obtain ⟨f, hf, h⟩ := except_bind_eq_ok.mp h
  cases h
  exact ⟨c, t, f, hc, ht, hf, rfl⟩

/-- `If::sigma_serialize` applies the expression codec to the three children only. -/
theorem sigmaSerialize_congr {g : Expr → Except IoError (List UInt8)}
    {condition trueBranch falseBranch : Expr} (hc : exprSerialize condition = g condition)
    (ht : exprSerialize trueBranch = g trueBranch) (hf : exprSerialize falseBranch = g falseBranch) :
    sigmaSerialize exprSerialize condition trueBranch falseBranch =
      sigmaSerialize g condition trueBranch falseBranch := by
  simp only [sigmaSerialize, hc, ht, hf]

/-- `If::sigma_parse` reads the three children one after the other, each from where the last one
stopped. -/
theorem sigmaParse_append {condition trueBranch falseBranch : Expr} {c t f : List UInt8}
    (hc : ∀ rest, exprParse (c ++ rest) = .ok (condition, rest))
    (ht : ∀ rest, exprParse (t ++ rest) = .ok (trueBranch, rest))
    (hf : ∀ rest, exprParse (f ++ rest) = .ok (falseBranch, rest)) (rest : List UInt8) :
    sigmaParse exprParse (c ++ t ++ f ++ rest) = .ok (.ifOp condition trueBranch falseBranch, rest) := by
  rw [sigmaParse, List.append_assoc, List.append_assoc, ByteReader.bind_of_ok (hc _),
    ByteReader.bind_of_ok (ht _), ByteReader.bind_of_ok (hf _)]
  rfl

/-- The three reads of `If::sigma_parse`, each decided by a condition. -/
theorem sigmaParse_ite {c t f : Expr} {bytes r₁ r₂ rest : List UInt8} {c₁ c₂ c₃ : Prop}
    [Decidable c₁] [Decidable c₂] [Decidable c₃] {e : SerializationError}
    (hc : exprParse bytes = if c₁ then .ok (c, r₁) else .error e)
    (ht : exprParse r₁ = if c₂ then .ok (t, r₂) else .error e)
    (hf : exprParse r₂ = if c₃ then .ok (f, rest) else .error e) :
    sigmaParse exprParse bytes = if c₁ ∧ c₂ ∧ c₃ then .ok (.ifOp c t f, rest) else .error e :=
  ByteReader.bind_ite_ite hc (ByteReader.bind_ite_ite ht (ByteReader.bind_pure_ite hf))

theorem sigmaParse_eq_ok {bytes rest : List UInt8} {node : Expr}
    (h : sigmaParse exprParse bytes = .ok (node, rest)) :
    ∃ c t f r₁ r₂, exprParse bytes = .ok (c, r₁) ∧ exprParse r₁ = .ok (t, r₂) ∧
      exprParse r₂ = .ok (f, rest) ∧ node = .ifOp c t f := by
  obtain ⟨c, r₁, hc, h⟩ := ByteReader.bind_eq_ok.mp h
  obtain ⟨t, r₂, ht, h⟩ := ByteReader.bind_eq_ok.mp h
  obtain ⟨f, r₃, hf, h⟩ := ByteReader.bind_eq_ok.mp h
  cases h
  exact ⟨c, t, f, r₁, r₂, hc, ht, hf, rfl⟩

end If

/-- `If::sigma_parse` checks no type: it returns `If{condition, true_branch, false_branch}` exactly
when `Expr::sigma_parse` reads the three in turn, whatever their types, and otherwise the first
error of those reads. -/
theorem if_parse_reads_three_exprs (exprParse : ByteReader Expr) (bytes : List UInt8) :
    (∀ node rest, If.sigmaParse exprParse bytes = .ok (node, rest) ↔
      ∃ c t f r₁ r₂, exprParse bytes = .ok (c, r₁) ∧ exprParse r₁ = .ok (t, r₂) ∧
        exprParse r₂ = .ok (f, rest) ∧ node = .ifOp c t f) ∧
    (∀ err, If.sigmaParse exprParse bytes = .error err ↔
      exprParse bytes = .error err ∨ ∃ c r₁, exprParse bytes = .ok (c, r₁) ∧
        (exprParse r₁ = .error err ∨ ∃ t r₂, exprParse r₁ = .ok (t, r₂) ∧ exprParse r₂ = .error err)) := by
  constructor
  · intro node rest
    refine ⟨If.sigmaParse_eq_ok, ?_⟩
    rintro ⟨c, t, f, r₁, r₂, hc, ht, hf, rfl⟩
    rw [If.sigmaParse, ByteReader.bind_of_ok hc, ByteReader.bind_of_ok ht, ByteReader.bind_of_ok hf]
    rfl
  · intro err
    simp only [If.sigmaParse, ByteReader.bind_eq_error, ByteReader.pure_apply]
    constructor
    · rintro (h | ⟨c, r₁, hc, h | ⟨t, r₂, ht, h | ⟨_, _, _, h⟩⟩⟩)
      · exact .inl h
      · exact .inr ⟨c, r₁, hc, .inl h⟩
      · exact .inr ⟨c, r₁, hc, .inr ⟨t, r₂, ht, h⟩⟩
      · exact nomatch h
    · rintro (h | ⟨c, r₁, hc, h | ⟨t, r₂, ht, h⟩⟩)
      · exact .inl h
      · exact .inr ⟨c, r₁, hc, .inl h⟩
      · exact .inr ⟨c, r₁, hc, .inr ⟨t, r₂, ht, .inl h⟩⟩

/-- The bytes of `Byte(1)`, `Boolean(true)` and `Byte(0)` parse, as an `If`, into a node with a
`SByte` condition and branches of two types. -/
theorem if_parse_accepts_ill_typed :
    If.sigmaParse (Expr.sigmaParse .empty 1) [2, 1, 1, 1, 2, 0] =
      .ok (.ifOp (.const ⟨.sByte, .byte ⟨1, by decide⟩⟩) (.const ⟨.sBoolean, .boolean true⟩)
        (.const ⟨.sByte, .byte ⟨0, by decide⟩⟩), []) ∧
    (Expr.const ⟨.sByte, .byte ⟨1, by decide⟩⟩).tpe ≠ .sBoolean ∧
    (Expr.const ⟨.sBoolean, .boolean true⟩).tpe ≠ (Expr.const ⟨.sByte, .byte ⟨0, by decide⟩⟩).tpe :=
  ⟨rfl, by decide, by decide⟩

/-- The `If` codec round trip: when each child is read back from what the expression codec
writes for it, whatever follows, the `If` is read back from what `If::sigma_serialize` writes,
with its children in their places, and exactly the trailing bytes are left. -/
theorem if_round_trip (exprSerialize : Expr → Except IoError (List UInt8))
    (exprParse : ByteReader Expr) (condition trueBranch falseBranch : Expr) (c t f : List UInt8)
    (hc : exprSerialize condition = .ok c) (ht : exprSerialize trueBranch = .ok t)
    (hf : exprSerialize falseBranch = .ok f)
    (hpc : ∀ rest, exprParse (c ++ rest) = .ok (condition, rest))
    (hpt : ∀ rest, exprParse (t ++ rest) = .ok (trueBranch, rest))
    (hpf : ∀ rest, exprParse (f ++ rest) = .ok (falseBranch, rest)) (rest : List UInt8) :
    If.sigmaSerialize exprSerialize condition trueBranch falseBranch = .ok (c ++ t ++ f) ∧
    If.sigmaParse exprParse (c ++ t ++ f ++ rest) = .ok (.ifOp condition trueBranch falseBranch, rest) :=
  ⟨If.sigmaSerialize_eq hc ht hf, If.sigmaParse_append hpc hpt hpf rest⟩

/-- `If(true, 5L, -300L)` with two different branches, followed by another node's opcode. -/
theorem bool_and_longs_round_trip :
    If.sigmaSerialize Expr.sigmaSerialize (.const ⟨.sBoolean, .boolean true⟩)
        (.const ⟨.sLong, .long ⟨5, by decide⟩⟩) (.const ⟨.sLong, .long ⟨-300, by decide⟩⟩) =
      .ok ([1, 1] ++ [5, 10] ++ [5, 215, 4]) ∧
    If.sigmaParse (Expr.sigmaParse .empty 1) ([1, 1] ++ [5, 10] ++ [5, 215, 4] ++ [149]) =
      .ok (.ifOp (.const ⟨.sBoolean, .boolean true⟩) (.const ⟨.sLong, .long ⟨5, by decide⟩⟩)
        (.const ⟨.sLong, .long ⟨-300, by decide⟩⟩), [149]) :=
  if_round_trip Expr.sigmaSerialize (Expr.sigmaParse .empty 1) (.const ⟨.sBoolean, .boolean true⟩)
    (.const ⟨.sLong, .long ⟨5, by decide⟩⟩) (.const ⟨.sLong, .long ⟨-300, by decide⟩⟩)
    [1, 1] [5, 10] [5, 215, 4] (by rfl) (by rfl) (by rfl) (fun _ => by rfl) (fun _ => by rfl)
    (fun _ => by rfl) [149]

/-! ## The writer's equations -/

namespace BinOp

variable {exprSerialize : Expr → Except IoError (List UInt8)}

theorem sigmaSerialize_eq_ok {left right : Expr} {bytes : List UInt8}
    (h : sigmaSerialize exprSerialize left right = .ok bytes) :
    ∃ l r, exprSerialize left = .ok l ∧ exprSerialize right = .ok r ∧ bytes = l ++ r := by
  obtain ⟨l, hl, h⟩ := except_bind_eq_ok.mp h
  obtain ⟨r, hr, h⟩ := except_bind_eq_ok.mp h
  cases h
  exact ⟨l, r, hl, hr, rfl⟩

/-- The two reads of `BinOp`'s payload, each decided by a condition. -/
theorem sigmaParse_ite {exprParse : ByteReader Expr} {kind : BinOpKind} {left right : Expr}
    {bytes r₁ rest : List UInt8} {c₁ c₂ : Prop} [Decidable c₁] [Decidable c₂] {e : SerializationError}
    (hl : exprParse bytes = if c₁ then .ok (left, r₁) else .error e)
    (hr : exprParse r₁ = if c₂ then .ok (right, rest) else .error e) :
    sigmaParse exprParse kind bytes = if c₁ ∧ c₂ then .ok (.binOp kind left right, rest) else .error e :=
  ByteReader.bind_ite_ite hl (ByteReader.bind_pure_ite hr)

theorem sigmaParse_eq_ok {exprParse : ByteReader Expr} {kind : BinOpKind} {bytes rest : List UInt8}
    {node : Expr} (h : sigmaParse exprParse kind bytes = .ok (node, rest)) :
    ∃ l rt r₁, exprParse bytes = .ok (l, r₁) ∧ exprParse r₁ = .ok (rt, rest) ∧
      node = .binOp kind l rt := by
  obtain ⟨l, r₁, hl, h⟩ := ByteReader.bind_eq_ok.mp h
  obtain ⟨rt, r₂, hr, h⟩ := ByteReader.bind_eq_ok.mp h
  cases h
  exact ⟨l, rt, r₁, hl, hr, rfl⟩

theorem sigmaSerialize_congr {g : Expr → Except IoError (List UInt8)} {left right : Expr}
    (hl : exprSerialize left = g left) (hr : exprSerialize right = g right) :
    sigmaSerialize exprSerialize left right = sigmaSerialize g left right := by
  simp only [sigmaSerialize, hl, hr]

end BinOp

theorem Expr.one_le_depth (e : Expr) : 1 ≤ e.depth := by
  cases e <;> simp only [Expr.depth] <;> omega

theorem Expr.depth_binOp_le {kind : BinOpKind} {left right : Expr} {n : Nat} :
    (Expr.binOp kind left right).depth ≤ n + 1 ↔ left.depth ≤ n ∧ right.depth ≤ n := by
  simp only [Expr.depth, Nat.add_le_add_iff_right, Nat.max_le]

theorem Expr.depth_ifOp_le {condition trueBranch falseBranch : Expr} {n : Nat} :
    (Expr.ifOp condition trueBranch falseBranch).depth ≤ n + 1 ↔
      condition.depth ≤ n ∧ trueBranch.depth ≤ n ∧ falseBranch.depth ≤ n := by
  simp only [Expr.depth, Nat.add_le_add_iff_right, Nat.max_le]

/-- The fuel of the writer never runs out: from the tree's depth on, it writes the same. -/
theorem Expr.sigmaSerializeUpTo_of_depth_le (store : ConstantStore) :
    ∀ (e : Expr) (n : Nat), e.depth ≤ n → Expr.sigmaSerializeUpTo store n e = e.sigmaSerializeWith store
  | .const _, n + 1, _ => rfl
  | .binOp kind left right, n + 1, h => by
    have hl := Expr.sigmaSerializeUpTo_of_depth_le store left
    have hr := Expr.sigmaSerializeUpTo_of_depth_le store right
    obtain ⟨hln, hrn⟩ := Expr.depth_binOp_le.mp h
    obtain ⟨hld, hrd⟩ := Expr.depth_binOp_le.mp (Nat.le_refl (Expr.binOp kind left right).depth)
    rw [Expr.sigmaSerializeWith, Expr.depth, Expr.sigmaSerializeUpTo, Expr.sigmaSerializeUpTo,
      BinOp.sigmaSerialize_congr (hl _ hln) (hr _ hrn), BinOp.sigmaSerialize_congr (hl _ hld) (hr _ hrd)]
  | .ifOp condition trueBranch falseBranch, n + 1, h => by
    have hc := Expr.sigmaSerializeUpTo_of_depth_le store condition
    have ht := Expr.sigmaSerializeUpTo_of_depth_le store trueBranch
    have hf := Expr.sigmaSerializeUpTo_of_depth_le store falseBranch
    obtain ⟨hcn, htn, hfn⟩ := Expr.depth_ifOp_le.mp h
    obtain ⟨hcd, htd, hfd⟩ :=
      Expr.depth_ifOp_le.mp (Nat.le_refl (Expr.ifOp condition trueBranch falseBranch).depth)
    rw [Expr.sigmaSerializeWith, Expr.depth, Expr.sigmaSerializeUpTo, Expr.sigmaSerializeUpTo,
      If.sigmaSerialize_congr (hc _ hcn) (ht _ htn) (hf _ hfn),
      If.sigmaSerialize_congr (hc _ hcd) (ht _ htd) (hf _ hfd)]
  | e, 0, h => absurd h (by have := e.one_le_depth; omega)

namespace Expr

variable (store : ConstantStore)

theorem sigmaSerializeWith_const (c : Constant) :
    (Expr.const c).sigmaSerializeWith store =
      match store.find? c with
      | some id => do return OpCode.constantPlaceholder.value :: (← putUsize id)
      | none => c.sigmaSerialize :=
  rfl

/-- The writer's `BinOp` arm: the op code, and the payload of `BinOp`'s writer. -/
theorem sigmaSerializeWith_binOp (kind : BinOpKind) (left right : Expr) :
    (Expr.binOp kind left right).sigmaSerializeWith store = do
      return kind.opCode.value :: (← BinOp.sigmaSerialize (sigmaSerializeWith store) left right) := by
  rw [← sigmaSerializeUpTo_of_depth_le store _ _ (Nat.le_refl _), Expr.depth, sigmaSerializeUpTo,
    BinOp.sigmaSerialize_congr (sigmaSerializeUpTo_of_depth_le store left _ (Nat.le_max_left _ _))
      (sigmaSerializeUpTo_of_depth_le store right _ (Nat.le_max_right _ _))]

/-- The writer's `If` arm: the op code, and what `If::sigma_serialize` writes. -/
theorem sigmaSerializeWith_ifOp (condition trueBranch falseBranch : Expr) :
    (Expr.ifOp condition trueBranch falseBranch).sigmaSerializeWith store = do
      return OpCode.if.value ::
        (← If.sigmaSerialize (sigmaSerializeWith store) condition trueBranch falseBranch) := by
  obtain ⟨hc, ht, hf⟩ :=
    depth_ifOp_le.mp (Nat.le_refl (Expr.ifOp condition trueBranch falseBranch).depth)
  rw [← sigmaSerializeUpTo_of_depth_le store _ _ (Nat.le_refl _), Expr.depth, sigmaSerializeUpTo,
    If.sigmaSerialize_congr (sigmaSerializeUpTo_of_depth_le store _ _ hc)
      (sigmaSerializeUpTo_of_depth_le store _ _ ht) (sigmaSerializeUpTo_of_depth_le store _ _ hf)]

theorem sigmaSerializeWith_binOp_eq_ok {kind : BinOpKind} {left right : Expr} {bytes : List UInt8}
    (h : (Expr.binOp kind left right).sigmaSerializeWith store = .ok bytes) :
    ∃ l r, left.sigmaSerializeWith store = .ok l ∧ right.sigmaSerializeWith store = .ok r ∧
      bytes = kind.opCode.value :: (l ++ r) := by
  rw [sigmaSerializeWith_binOp] at h
  obtain ⟨p, hp, h⟩ := except_bind_eq_ok.mp h
  cases h
  obtain ⟨l, r, hl, hr, rfl⟩ := BinOp.sigmaSerialize_eq_ok hp
  exact ⟨l, r, hl, hr, rfl⟩

theorem sigmaSerializeWith_ifOp_eq_ok {condition trueBranch falseBranch : Expr} {bytes : List UInt8}
    (h : (Expr.ifOp condition trueBranch falseBranch).sigmaSerializeWith store = .ok bytes) :
    ∃ c t f, condition.sigmaSerializeWith store = .ok c ∧
      trueBranch.sigmaSerializeWith store = .ok t ∧ falseBranch.sigmaSerializeWith store = .ok f ∧
      bytes = OpCode.if.value :: (c ++ t ++ f) := by
  rw [sigmaSerializeWith_ifOp] at h
  obtain ⟨p, hp, h⟩ := except_bind_eq_ok.mp h
  cases h
  obtain ⟨c, t, f, hc, ht, hf, rfl⟩ := If.sigmaSerialize_eq_ok hp
  exact ⟨c, t, f, hc, ht, hf, rfl⟩

end Expr

/-! ## The type check against `Expr.WellTyped` -/

theorem SType.isInteger_iff {t : SType} : t.isInteger = true ↔ ∃ w : NumWidth, t = w.tpe := by
  constructor
  · intro h
    cases t <;> first
      | exact ⟨.byte, rfl⟩
      | exact ⟨.short, rfl⟩
      | exact ⟨.int, rfl⟩
      | exact ⟨.long, rfl⟩
      | cases h
  · rintro ⟨w, rfl⟩
    cases w <;> rfl

/-- Arithmetic and ordering check that both operands have one integer type. -/
theorem SType.integer_pair_iff {l r : SType} :
    (l.isInteger && l == r) = true ↔ ∃ w : NumWidth, l = w.tpe ∧ r = w.tpe := by
  rw [Bool.and_eq_true, SType.isInteger_iff, beq_iff_eq]
  constructor
  · rintro ⟨⟨w, rfl⟩, rfl⟩
    exact ⟨w, rfl, rfl⟩
  · rintro ⟨w, rfl, rfl⟩
    exact ⟨⟨w, rfl⟩, rfl⟩

/-- The reader's check of a `BinOp` is the typing rule of `Expr.WellTyped`. -/
theorem Expr.wellTyped_binOp_iff {kind : BinOpKind} {left right : Expr} :
    (Expr.binOp kind left right).WellTyped ↔
      left.WellTyped ∧ right.WellTyped ∧ (Expr.binOp kind left right).nodeTypesOk = true := by
  constructor
  · intro h
    cases h with
    | arith w hl hr hlt hrt => exact ⟨hl, hr, SType.integer_pair_iff.mpr ⟨w, hlt, hrt⟩⟩
    | ordering w hop hl hr hlt hrt =>
      refine ⟨hl, hr, ?_⟩
      simp only [List.mem_cons, List.mem_singleton, List.not_mem_nil, or_false] at hop
      rcases hop with rfl | rfl | rfl | rfl <;> exact SType.integer_pair_iff.mpr ⟨w, hlt, hrt⟩
    | equality hop hl hr hlr =>
      rcases hop with rfl | rfl <;> exact ⟨hl, hr, beq_iff_eq.mpr hlr⟩
    | logical hop hl hr hlt hrt =>
      rcases hop with rfl | rfl <;>
        exact ⟨hl, hr, Bool.and_eq_true_iff.mpr ⟨beq_iff_eq.mpr hlt, beq_iff_eq.mpr hrt⟩⟩
  · rintro ⟨hl, hr, hc⟩
    rcases kind with op | op
    · obtain ⟨w, hlt, hrt⟩ := SType.integer_pair_iff.mp hc
      exact .arith w hl hr hlt hrt
    · cases op
      case eq => exact .equality (.inl rfl) hl hr (beq_iff_eq.mp hc)
      case neq => exact .equality (.inr rfl) hl hr (beq_iff_eq.mp hc)
      case and | or =>
        obtain ⟨hlt, hrt⟩ := Bool.and_eq_true_iff.mp hc
        first
          | exact .logical (.inl rfl) hl hr (beq_iff_eq.mp hlt) (beq_iff_eq.mp hrt)
          | exact .logical (.inr rfl) hl hr (beq_iff_eq.mp hlt) (beq_iff_eq.mp hrt)
      all_goals
        obtain ⟨w, hlt, hrt⟩ := SType.integer_pair_iff.mp hc
        exact .ordering w (by decide) hl hr hlt hrt

/-- The reader's check of an `If` is the typing rule of `Expr.WellTyped`. -/
theorem Expr.wellTyped_ifOp_iff {condition trueBranch falseBranch : Expr} :
    (Expr.ifOp condition trueBranch falseBranch).WellTyped ↔
      condition.WellTyped ∧ trueBranch.WellTyped ∧ falseBranch.WellTyped ∧
        (Expr.ifOp condition trueBranch falseBranch).nodeTypesOk = true := by
  simp only [Expr.nodeTypesOk, Bool.and_eq_true, beq_iff_eq]
  constructor
  · intro h
    cases h with
    | ifOp hc ht hf hct htf => exact ⟨hc, ht, hf, hct, htf⟩
  · rintro ⟨hc, ht, hf, hct, htf⟩
    exact .ifOp hc ht hf hct htf

theorem Expr.wellTyped_const_iff {c : Constant} :
    (Expr.const c).WellTyped ↔ c.v.hasType c.tpe = true :=
  ⟨fun h => by cases h; assumption, .const⟩

/-! ## The reader, one node at a time -/

namespace Expr

variable {store : ConstantStore} {n : Nat} {r : List UInt8}

theorem sigmaParse_succ_of_le {code : UInt8} (h : code ≤ OpCode.lastConstantCode) :
    Expr.sigmaParse store (n + 1) (code :: r) =
      (Constant.sigmaParse >>= fun c => pure (Expr.const c)) (code :: r) := by
  rw [Expr.sigmaParse, bind_of_ok (show peekU8 (code :: r) = .ok (code, code :: r) from rfl),
    if_pos h]

theorem sigmaParse_succ_placeholder :
    Expr.sigmaParse store (n + 1) (OpCode.constantPlaceholder.value :: r) =
      (getUVlq >>= fun id => match store.get id with
        | some c => pure (Expr.const c)
        | none => throw (.constantNotFound id)) r :=
  rfl

theorem sigmaParse_succ_if :
    Expr.sigmaParse store (n + 1) (OpCode.if.value :: r) =
      (If.sigmaParse (Expr.sigmaParse store n) >>= Expr.checkTypes) r :=
  rfl

theorem sigmaParse_succ_binOp (kind : BinOpKind) :
    Expr.sigmaParse store (n + 1) (kind.opCode.value :: r) =
      (BinOp.sigmaParse (Expr.sigmaParse store n) kind >>= Expr.checkTypes) r := by
  obtain ⟨hof, hgt, hph, hif⟩ := BinOpKind.ofOpCode_opCode kind
  rw [Expr.sigmaParse, bind_of_ok (show peekU8 (kind.opCode.value :: r) =
      .ok (kind.opCode.value, kind.opCode.value :: r) from rfl), if_neg hgt,
    bind_of_ok (getU8_cons _ _)]
  simp only [if_neg hph, if_neg hif, hof]

end Expr

/-- A node read under a condition passes the type check when its operand types check. -/
theorem Expr.bind_checkTypes {p : ByteReader Expr} {bytes rest : List UInt8} {node : Expr}
    {c : Prop} [Decidable c] {e : SerializationError}
    (hp : p bytes = if c then .ok (node, rest) else .error e) (hn : node.nodeTypesOk = true) :
    (p >>= Expr.checkTypes) bytes = if c then .ok (node, rest) else .error e := by
  by_cases h : c
  · rw [if_pos h] at hp
    rw [ByteReader.bind_of_ok hp, if_pos h, Expr.checkTypes, if_pos hn]
    rfl
  · rw [if_neg h] at hp
    rw [ByteReader.bind_of_error hp, if_neg h]

/-! ## The round trip -/

theorem Expr.sigmaParse_zero (store : ConstantStore) (e : Expr) (bytes rest : List UInt8) :
    Expr.sigmaParse store 0 bytes = if e.depth ≤ 0 then .ok (e, rest) else .error .depthExceeded :=
  (if_neg (by have := e.one_le_depth; omega)).symm

/-- A well-typed tree written with a table is read back, whatever follows it, by a reader whose
table extends the writer's, exactly when the depth limit allows it. -/
theorem Expr.sigmaParse_append_serialize {w r : ConstantStore} (hwr : w.constants <+: r.constants)
    {e : Expr} (he : e.WellTyped) (n : Nat) {bytes : List UInt8}
    (h : e.sigmaSerializeWith w = .ok bytes) (rest : List UInt8) :
    Expr.sigmaParse r n (bytes ++ rest) =
      if e.depth ≤ n then .ok (e, rest) else .error .depthExceeded := by
  induction e generalizing n bytes rest with
  | const c =>
    cases n with
    | zero => exact Expr.sigmaParse_zero _ _ _ _
    | succ m =>
    rw [if_pos (show (Expr.const c).depth ≤ m + 1 from Nat.succ_le_succ (Nat.zero_le m)),
      Expr.sigmaSerializeWith_const] at *
    cases hfind : w.find? c with
    | none =>
      -- written inline
      rw [hfind] at h
      obtain ⟨code, b, rfl, hcode⟩ := Constant.sigmaSerialize_eq_cons h
      rw [List.cons_append, Expr.sigmaParse_succ_of_le hcode, ← List.cons_append,
        bind_of_ok (Constant.readsBack_sigmaParse (Expr.wellTyped_const_iff.mp he) h rest)]
      rfl
    | some id =>
      -- written as a placeholder
      rw [hfind] at h
      obtain ⟨b, hb, h⟩ := except_bind_eq_ok.mp h
      cases h
      obtain ⟨hid, rfl⟩ := putUsize_eq_ok hb
      rw [List.cons_append, Expr.sigmaParse_succ_placeholder, bind_of_ok (getUVlq_putUVlq hid rest),
        ConstantStore.get_of_find? hwr hfind]
      rfl
  | binOp kind left right ihl ihr =>
    cases n with
    | zero => exact Expr.sigmaParse_zero _ _ _ _
    | succ m =>
    obtain ⟨hl, hr, hn⟩ := Expr.wellTyped_binOp_iff.mp he
    obtain ⟨bl, br, hbl, hbr, rfl⟩ := Expr.sigmaSerializeWith_binOp_eq_ok w h
    rw [List.cons_append, Expr.sigmaParse_succ_binOp, List.append_assoc,
      Expr.bind_checkTypes (BinOp.sigmaParse_ite (ihl hl m hbl _) (ihr hr m hbr rest)) hn]
    exact if_congr Expr.depth_binOp_le.symm rfl rfl
  | ifOp condition trueBranch falseBranch ihc iht ihf =>
    cases n with
    | zero => exact Expr.sigmaParse_zero _ _ _ _
    | succ m =>
    obtain ⟨hc, ht, hf, hn⟩ := Expr.wellTyped_ifOp_iff.mp he
    obtain ⟨bc, bt, bf, hbc, hbt, hbf, rfl⟩ := Expr.sigmaSerializeWith_ifOp_eq_ok w h
    rw [List.cons_append, Expr.sigmaParse_succ_if, List.append_assoc, List.append_assoc,
      Expr.bind_checkTypes (If.sigmaParse_ite (ihc hc m hbc _) (iht ht m hbt _)
        (ihf hf m hbf rest)) hn]
    exact if_congr Expr.depth_ifOp_le.symm rfl rfl

/-- The round trip of the expression codec: a well-typed tree, written inline or with a constant
table, is read back from its bytes, whatever follows them, by a reader whose table extends the
writer's, so a reader with a table accepts both forms; a parse of at least the tree's depth reads
it, and a shallower one fails with `DepthExceeded`. -/
theorem Expr.sigmaParse_sigmaSerialize {w r : ConstantStore} (hwr : w.constants <+: r.constants)
    {e : Expr} (he : e.WellTyped) (n : Nat) {bytes : List UInt8}
    (h : e.sigmaSerializeWith w = .ok bytes) (rest : List UInt8) :
    Expr.sigmaParse r n (bytes ++ rest) =
      if e.depth ≤ n then .ok (e, rest) else .error .depthExceeded :=
  Expr.sigmaParse_append_serialize hwr he n h rest

/-- The table holding `5L`. -/
def longFiveStore : ConstantStore :=
  ⟨[⟨.sLong, .long ⟨5, by decide⟩⟩], List.forall_mem_singleton.mpr ⟨rfl, _, rfl⟩⟩

/-- `If(true, 5L, -300L)` written with the table holding `5L`, its second branch a placeholder,
is read back by a reader with that table at depth 2, with another node's opcode after it, and
not at depth 1; written inline, the same reader reads it too. -/
theorem if_tree_parse_serialize :
    (Expr.ifOp (.const ⟨.sBoolean, .boolean true⟩) (.const ⟨.sLong, .long ⟨5, by decide⟩⟩)
      (.const ⟨.sLong, .long ⟨-300, by decide⟩⟩)).sigmaSerializeWith longFiveStore =
        .ok [149, 1, 1, 113, 0, 5, 215, 4] ∧
    Expr.sigmaParse longFiveStore 2 ([149, 1, 1, 113, 0, 5, 215, 4] ++ [149]) =
      .ok (.ifOp (.const ⟨.sBoolean, .boolean true⟩) (.const ⟨.sLong, .long ⟨5, by decide⟩⟩)
        (.const ⟨.sLong, .long ⟨-300, by decide⟩⟩), [149]) ∧
    Expr.sigmaParse longFiveStore 1 ([149, 1, 1, 113, 0, 5, 215, 4] ++ [149]) =
      .error .depthExceeded ∧
    Expr.sigmaParse longFiveStore 2 ([149, 1, 1, 5, 10, 5, 215, 4] ++ [149]) =
      .ok (.ifOp (.const ⟨.sBoolean, .boolean true⟩) (.const ⟨.sLong, .long ⟨5, by decide⟩⟩)
        (.const ⟨.sLong, .long ⟨-300, by decide⟩⟩), [149]) := by
  have he : (Expr.ifOp (.const ⟨.sBoolean, .boolean true⟩) (.const ⟨.sLong, .long ⟨5, by decide⟩⟩)
      (.const ⟨.sLong, .long ⟨-300, by decide⟩⟩)).WellTyped :=
    .ifOp (.const rfl) (.const rfl) (.const rfl) rfl rfl
  have hw : (Expr.ifOp (.const ⟨.sBoolean, .boolean true⟩) (.const ⟨.sLong, .long ⟨5, by decide⟩⟩)
      (.const ⟨.sLong, .long ⟨-300, by decide⟩⟩)).sigmaSerializeWith longFiveStore =
        .ok [149, 1, 1, 113, 0, 5, 215, 4] := rfl
  have hi : (Expr.ifOp (.const ⟨.sBoolean, .boolean true⟩) (.const ⟨.sLong, .long ⟨5, by decide⟩⟩)
      (.const ⟨.sLong, .long ⟨-300, by decide⟩⟩)).sigmaSerializeWith .empty =
        .ok [149, 1, 1, 5, 10, 5, 215, 4] := rfl
  exact ⟨hw, (Expr.sigmaParse_sigmaSerialize (List.prefix_refl _) he 2 hw [149]).trans
      (if_pos (by decide)),
    (Expr.sigmaParse_sigmaSerialize (List.prefix_refl _) he 1 hw [149]).trans (if_neg (by decide)),
    (Expr.sigmaParse_sigmaSerialize List.nil_prefix he 2 hi [149]).trans (if_pos (by decide))⟩

end SigmaRust
