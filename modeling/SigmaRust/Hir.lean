import SigmaRust.Value
import SigmaRust.Result

/-! Lowering the ErgoScript syntax tree to the high-level IR (`ergoscript-compiler/src/hir.rs`).
`Expr::lower` handles an identifier, and a `+`, `-`, `*` or `/` whose operator and two operands are
present; every other node is `todo!()`, an operator token of another kind is `unreachable!()`, and
a missing operator or operand is an `unwrap` of `None`, so each of them panics. An identifier
without a name is the only `Err`. `Binary::lower` lowers both operands before it applies `?` to
either, so an `Err` of the left operand waits while the right one is lowered, and a panic anywhere
in the tree wins over every `Err`.

So lowering sorts trees exactly: it panics on a tree with an unsupported node, returns `Err` on a
supported tree with an unnamed identifier, and otherwise returns a tree of the IR that erases back
to the input, untyped at every node. The syntax tree of `ast.rs` and the token kinds of
`syntax.rs` are not in the sources; they are modelled from what `hir.rs` reads of them. -/

namespace SigmaRust

/-- `TextRange` of the `text-size` crate: a span of the source text. -/
structure TextRange where
  start : Nat
  stop : Nat
deriving DecidableEq

/-- The token kinds `Binary::lower` tells apart; `other` stands for every other `SyntaxKind`. -/
inductive SyntaxKind where
  | plus
  | minus
  | star
  | slash
  | other
deriving DecidableEq

namespace Ast

/-- `ast::Expr`, as `hir.rs` reads it: an accessor that returns an `Option` is an optional field,
and `other` stands for every node kind `Expr::lower` does not handle. -/
inductive Expr where
  | binaryExpr (op : Option (SyntaxKind × TextRange)) (lhs rhs : Option Expr) (span : TextRange)
  | ident (name : Option String) (span : TextRange)
  | other (span : TextRange)

namespace Expr

/-- Every node is one `Expr::lower` handles: an identifier, or a `+`, `-`, `*`, `/` with its
operator and both operands. -/
def supported : Expr → Bool
  | binaryExpr op lhs rhs _ =>
    (match op with | some (kind, _) => kind != .other | none => false) &&
    (match lhs with | some lhs => lhs.supported | none => false) &&
    (match rhs with | some rhs => rhs.supported | none => false)
  | ident .. => true
  | other _ => false

/-- Every identifier has a name. -/
def named : Expr → Bool
  | binaryExpr _ lhs rhs _ =>
    (match lhs with | some lhs => lhs.named | none => true) &&
    (match rhs with | some rhs => rhs.named | none => true)
  | ident name _ => name.isSome
  | other _ => true

/- The recursion runs through `Option`, so a node only unfolds once its operands are split; these
equations do the split once. -/

@[simp]
theorem supported_binaryExpr (op : Option (SyntaxKind × TextRange)) (lhs rhs : Option Expr)
    (span : TextRange) : (binaryExpr op lhs rhs span).supported =
      (op.any (·.1 != .other) && lhs.any supported && rhs.any supported) := by
  cases op <;> cases lhs <;> cases rhs <;> rfl

@[simp]
theorem named_binaryExpr (op : Option (SyntaxKind × TextRange)) (lhs rhs : Option Expr)
    (span : TextRange) : (binaryExpr op lhs rhs span).named = (lhs.all named && rhs.all named) := by
  cases lhs <;> cases rhs <;> rfl

end Expr

end Ast

namespace Hir

/-- `BinaryOp`. -/
inductive BinaryOp where
  | plus
  | minus
  | multiply
  | divide
deriving DecidableEq

/-- `Spanned<T>`. -/
structure Spanned (α : Type) where
  node : α
  span : TextRange
deriving DecidableEq

/-- `GlobalVars`. -/
inductive GlobalVars where
  | height
deriving DecidableEq

/-- `GlobalVars::tpe`. -/
def GlobalVars.tpe : GlobalVars → SType
  | .height => .sInt

mutual

/-- `hir::Expr`. -/
inductive Expr where
  | mk (kind : ExprKind) (span : TextRange) (tpe : Option SType)

/-- `ExprKind`. -/
inductive ExprKind where
  | ident (name : String)
  | binary (binary : Binary)
  | globalVars (globalVars : GlobalVars)

/-- `Binary`. -/
inductive Binary where
  | mk (op : Spanned BinaryOp) (lhs rhs : Expr)

end

/-- `HirLoweringError`. -/
structure HirLoweringError where
  msg : String

/-- The result of lowering. -/
abbrev LowerResult (α : Type) := Except (Stop HirLoweringError) α

/-- The operator of a `BinaryExpr`; a token of any other kind is `unreachable!()`. -/
def BinaryOp.ofSyntaxKind : SyntaxKind → LowerResult BinaryOp
  | .plus => .ok .plus
  | .minus => .ok .minus
  | .star => .ok .multiply
  | .slash => .ok .divide
  | .other => .error (.panic "internal error: entered unreachable code")

/-- `Expr::lower`, with `Binary::lower` in its `BinaryExpr` arm. -/
def Expr.lower : Ast.Expr → LowerResult Expr
  | .binaryExpr op lhs rhs span => do
    let (kind, opSpan) ← unwrapOption op
    let op ← BinaryOp.ofSyntaxKind kind
    let lhs ← match lhs with
      | some lhs => holdErr (Expr.lower lhs)
      | none => unwrapOption none
    let rhs ← match rhs with
      | some rhs => holdErr (Expr.lower rhs)
      | none => unwrapOption none
    let lhs ← liftErr id lhs
    let rhs ← liftErr id rhs
    return .mk (.binary (.mk ⟨op, opSpan⟩ lhs rhs)) span none
  | .ident name span =>
    match name with
    | some name => .ok (.mk (.ident name) span none)
    | none => .error (.err ⟨""⟩)
  | .other _ => .error (.panic "not yet implemented")

/-- `lower`: the first expression of the tree; the others are never read, and a tree without one
panics at `unwrap`. -/
def lower : List Ast.Expr → LowerResult Expr
  | [] => unwrapOption none
  | firstExpr :: _ => Expr.lower firstExpr

/-- `Expr::lower` on a binary node, for operands not yet split (the equation Lean derives for a
recursion through `Option` only holds once they are). -/
theorem Expr.lower_binaryExpr (op : Option (SyntaxKind × TextRange)) (lhs rhs : Option Ast.Expr)
    (span : TextRange) : Expr.lower (.binaryExpr op lhs rhs span) = (do
      let (kind, opSpan) ← unwrapOption op
      let op ← BinaryOp.ofSyntaxKind kind
      let lhs ← match lhs with
        | some lhs => holdErr (Expr.lower lhs)
        | none => unwrapOption none
      let rhs ← match rhs with
        | some rhs => holdErr (Expr.lower rhs)
        | none => unwrapOption none
      let lhs ← liftErr id lhs
      let rhs ← liftErr id rhs
      return .mk (.binary (.mk ⟨op, opSpan⟩ lhs rhs)) span none) := by
  cases lhs <;> cases rhs <;> rfl

/-- The operator token of a `BinaryOp`. -/
def BinaryOp.syntaxKind : BinaryOp → SyntaxKind
  | .plus => .plus
  | .minus => .minus
  | .multiply => .star
  | .divide => .slash

theorem BinaryOp.ofSyntaxKind_syntaxKind (op : BinaryOp) : ofSyntaxKind op.syntaxKind = .ok op := by
  cases op <;> rfl

theorem BinaryOp.syntaxKind_of_ofSyntaxKind {kind : SyntaxKind} {op : BinaryOp}
    (h : ofSyntaxKind kind = .ok op) : op.syntaxKind = kind := by
  cases kind <;> cases h <;> rfl

@[simp]
theorem BinaryOp.syntaxKind_ne_other (op : BinaryOp) : (op.syntaxKind != .other) = true := by
  cases op <;> rfl

mutual

/-- The syntax tree an IR tree comes from; `GlobalVars`, which lowering never builds, has none. -/
def Expr.toAst : Expr → Ast.Expr
  | .mk kind span _ => kind.toAst span

/-- The syntax tree of an IR node of kind `kind` at `span`. -/
def ExprKind.toAst : ExprKind → TextRange → Ast.Expr
  | .ident name, span => .ident (some name) span
  | .binary (.mk op lhs rhs), span =>
    .binaryExpr (some (op.node.syntaxKind, op.span)) (some lhs.toAst) (some rhs.toAst) span
  | .globalVars _, span => .other span

end

mutual

/-- Every node of an IR tree is one lowering builds: an identifier or a binary node, untyped. -/
def Expr.Lowered : Expr → Prop
  | .mk kind _ tpe => tpe = none ∧ kind.Lowered

/-- The kind of an IR node that lowering builds. -/
def ExprKind.Lowered : ExprKind → Prop
  | .ident _ => True
  | .binary (.mk _ lhs rhs) => lhs.Lowered ∧ rhs.Lowered
  | .globalVars _ => False

end

@[simp]
theorem Expr.toAst_binary (op : Spanned BinaryOp) (lhs rhs : Expr) (span : TextRange)
    (tpe : Option SType) : (Expr.mk (.binary (.mk op lhs rhs)) span tpe).toAst =
      .binaryExpr (some (op.node.syntaxKind, op.span)) (some lhs.toAst) (some rhs.toAst) span := rfl

@[simp]
theorem Expr.lowered_binary (op : Spanned BinaryOp) (lhs rhs : Expr) (span : TextRange)
    (tpe : Option SType) : (Expr.mk (.binary (.mk op lhs rhs)) span tpe).Lowered ↔
      tpe = none ∧ lhs.Lowered ∧ rhs.Lowered :=
  Iff.rfl

/-- What lowering returns for the syntax tree `e`: an IR tree that erases back to `e`, untyped,
when `e` is supported and named; the empty `Err` when it is supported with an unnamed identifier;
and a panic when it is not supported. -/
def LowerSpec (e : Ast.Expr) : LowerResult Expr → Prop
  | .ok h => e.supported ∧ e.named ∧ h.toAst = e ∧ h.Lowered
  | .error (.err err) => e.supported ∧ e.named = false ∧ err = ⟨""⟩
  | .error (.panic _) => e.supported = false

/-- Lowering meets `LowerSpec` on every syntax tree. -/
theorem Expr.lower_spec : (e : Ast.Expr) → LowerSpec e (Expr.lower e)
  | .ident (some _) _ => ⟨rfl, rfl, rfl, rfl, trivial⟩
  | .ident none _ => ⟨rfl, rfl, rfl⟩
  | .other _ => rfl
  | .binaryExpr none lhs rhs _ => by
    rcases lhs with _ | _ <;> rcases rhs with _ | _ <;> exact rfl
  | .binaryExpr (some (kind, opSpan)) lhs rhs span => by
    cases hk : BinaryOp.ofSyntaxKind kind with
    | error s =>
      obtain rfl : kind = .other := by cases kind <;> cases hk; rfl
      rcases lhs with _ | _ <;> rcases rhs with _ | _ <;> exact rfl
    | ok op =>
      obtain rfl := BinaryOp.syntaxKind_of_ofSyntaxKind hk
      rcases lhs with _ | l <;> rcases rhs with _ | r <;>
        simp only [Expr.lower_binaryExpr, unwrapOption, bind, Except.bind, hk]
      case none.none | none.some => simp [LowerSpec]
      case some.none =>
        rcases Expr.lower l with ⟨_ | _⟩ | _ <;> simp [LowerSpec, holdErr]
      case some.some =>
        have ihl := Expr.lower_spec l
        have ihr := Expr.lower_spec r
        generalize Expr.lower l = x at ihl ⊢
        generalize Expr.lower r = y at ihr ⊢
        rcases x with ⟨_ | _⟩ | _ <;> rcases y with ⟨_ | _⟩ | _ <;>
          simp_all [LowerSpec, holdErr, liftErr, Except.mapError, pure, Except.pure]

/-- Lowering builds back every IR tree of the form it builds, from the syntax tree it erases to. -/
theorem Expr.lower_toAst : (h : Expr) → h.Lowered → Expr.lower h.toAst = .ok h
  | .mk (.ident _) _ _, ⟨htpe, _⟩ => by subst htpe; rfl
  | .mk (.binary (.mk op lhs rhs)) span _, ⟨htpe, hl, hr⟩ => by
    subst htpe
    simp only [Expr.toAst_binary, Expr.lower_binaryExpr, unwrapOption, bind, Except.bind,
      BinaryOp.ofSyntaxKind_syntaxKind, Expr.lower_toAst lhs hl, Expr.lower_toAst rhs hr]
    rfl
  | .mk (.globalVars _) _ _, ⟨_, h⟩ => h.elim

/-- Lowering returns an IR tree exactly when the tree is one lowering builds and erases to the
input: lowering is the inverse of erasure on what it builds. -/
theorem Expr.lower_eq_ok_iff_toAst (e : Ast.Expr) (h : Expr) :
    Expr.lower e = .ok h ↔ h.Lowered ∧ h.toAst = e := by
  refine ⟨fun hl => ?_, fun ⟨hh, he⟩ => he ▸ Expr.lower_toAst h hh⟩
  have hs := Expr.lower_spec e
  rw [hl] at hs
  exact ⟨hs.2.2.2, hs.2.2.1⟩

/-- Lowering panics exactly on a tree with a node it does not handle, wherever that node sits:
both operands are lowered before `?` is applied to either. -/
theorem Expr.lower_panics_iff (e : Ast.Expr) :
    (∃ msg, Expr.lower e = .error (.panic msg)) ↔ e.supported = false := by
  have hs := Expr.lower_spec e
  rcases hl : Expr.lower e with ⟨err | msg⟩ | h <;> rw [hl] at hs <;> simp_all [LowerSpec]

/-- The unnamed identifier on the left waits for the right operand, whose `todo!()` panics. -/
example : ∃ msg, Expr.lower (.binaryExpr (some (.plus, ⟨1, 2⟩)) (some (.ident none ⟨0, 1⟩))
    (some (.other ⟨2, 3⟩)) ⟨0, 3⟩) = .error (.panic msg) := ⟨_, rfl⟩

/-- Lowering returns `Err` exactly on a supported tree with an unnamed identifier, and the error's
text is empty. -/
theorem Expr.lower_eq_err_iff (e : Ast.Expr) (err : HirLoweringError) :
    Expr.lower e = .error (.err err) ↔ e.supported ∧ e.named = false ∧ err = ⟨""⟩ := by
  have hs := Expr.lower_spec e
  refine ⟨fun hl => by rwa [hl] at hs, fun ⟨_, _, _⟩ => ?_⟩
  rcases hl : Expr.lower e with ⟨err' | msg⟩ | h <;> rw [hl] at hs <;> simp_all [LowerSpec]

/-- `lower` reads only the first expression of the tree: it returns an IR tree exactly when the
tree has a first expression that the IR tree erases to, whatever follows it. -/
theorem lower_eq_ok_iff (ast : List Ast.Expr) (h : Expr) :
    lower ast = .ok h ↔ ∃ e rest, ast = e :: rest ∧ h.Lowered ∧ h.toAst = e := by
  cases ast with
  | nil => simp [lower, unwrapOption]
  | cons e rest => simp [lower, Expr.lower_eq_ok_iff_toAst]

end Hir

end SigmaRust
