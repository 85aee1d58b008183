import SigmaRust.SignedInt

/-! The runtime types and values of ErgoTree: `SType`, `Value` and `Constant`, with the variants
the `Const`, `BinOp` and `If` nodes produce or inspect (`Boolean`, the four integers and `BigInt`,
which carries no payload in this version of the source) and the compound values a constant may
hold and `Eq` compares (`Coll`, `Tup`, `Opt`). Equality is structural, as Rust's derived
`PartialEq`; both types nest lists, so it is written out here as mutual structural recursion.
`try_extract_into` reads a primitive out of a value and fails on any other variant. -/

namespace SigmaRust

/-- `SType`, the types of ErgoTree values. -/
inductive SType where
  | sAny
  | sBoolean
  | sByte
  | sShort
  | sInt
  | sLong
  | sBigInt
  | sOption (elemType : SType)
  | sColl (elemType : SType)
  | sTuple (items : List SType)

namespace SType

mutual
/-- Structural equality of types. -/
def beq : SType → SType → Bool
  | sAny, sAny | sBoolean, sBoolean | sByte, sByte | sShort, sShort | sInt, sInt
  | sLong, sLong | sBigInt, sBigInt => true
  | sOption a, sOption b | sColl a, sColl b => beq a b
  | sTuple as, sTuple bs => beqList as bs
  | _, _ => false
/-- Structural equality of type lists. -/
def beqList : List SType → List SType → Bool
  | [], [] => true
  | a :: as, b :: bs => beq a b && beqList as bs
  | _, _ => false
end

mutual
theorem beq_iff (a b : SType) : beq a b = true ↔ a = b := by
  cases a <;> cases b
  case sOption.sOption a b => exact (beq_iff a b).trans (Iff.of_eq (sOption.injEq a b).symm)
  case sColl.sColl a b => exact (beq_iff a b).trans (Iff.of_eq (sColl.injEq a b).symm)
  case sTuple.sTuple as bs => exact (beqList_iff as bs).trans (Iff.of_eq (sTuple.injEq as bs).symm)
  all_goals first
    | exact ⟨fun h => Bool.noConfusion h, fun h => SType.noConfusion h⟩
    | exact ⟨fun _ => rfl, fun _ => rfl⟩
theorem beqList_iff : ∀ as bs : List SType, beqList as bs = true ↔ as = bs
  | [], [] => ⟨fun _ => rfl, fun _ => rfl⟩
  | a :: as, b :: bs => (Iff.of_eq (Bool.and_eq_true _ _)).trans <|
      (and_congr (beq_iff a b) (beqList_iff as bs)).trans (Iff.of_eq (List.cons.injEq a as b bs).symm)
  | [], _ :: _ | _ :: _, [] => ⟨fun h => Bool.noConfusion h, fun h => List.noConfusion h⟩
end

instance : DecidableEq SType := fun a b => decidable_of_iff _ (beq_iff a b)

end SType

/-- `Value`, the runtime values of ErgoTree. -/
inductive Value where
  | boolean (b : Bool)
  | byte (v : SignedInt 8)
  | short (v : SignedInt 16)
  | int (v : SignedInt 32)
  | long (v : SignedInt 64)
  | bigInt
  | coll (elemTpe : SType) (items : List Value)
  | tup (items : List Value)
  | opt (v : Option Value)

namespace Value

mutual
/-- Structural equality of values, Rust's derived `PartialEq`. -/
def beq : Value → Value → Bool
  | boolean a, boolean b => a == b
  | byte a, byte b => a.val == b.val
  | short a, short b => a.val == b.val
  | int a, int b => a.val == b.val
  | long a, long b => a.val == b.val
  | bigInt, bigInt => true
  | coll t xs, coll u ys => t == u && beqList xs ys
  | tup xs, tup ys => beqList xs ys
  | opt a, opt b => beqOption a b
  | _, _ => false
/-- Structural equality of value lists. -/
def beqList : List Value → List Value → Bool
  | [], [] => true
  | a :: as, b :: bs => beq a b && beqList as bs
  | _, _ => false
/-- Structural equality of optional values. -/
def beqOption : Option Value → Option Value → Bool
  | none, none => true
  | some a, some b => beq a b
  | _, _ => false
end

mutual
theorem beq_iff (a b : Value) : beq a b = true ↔ a = b := by
  cases a <;> cases b
  case boolean.boolean a b => exact beq_iff_eq.trans (Iff.of_eq (boolean.injEq a b).symm)
  case byte.byte a b => exact beq_iff_eq.trans (SignedInt.ext_iff.symm.trans (byte.injEq a b).symm.to_iff)
  case short.short a b => exact beq_iff_eq.trans (SignedInt.ext_iff.symm.trans (short.injEq a b).symm.to_iff)
  case int.int a b => exact beq_iff_eq.trans (SignedInt.ext_iff.symm.trans (int.injEq a b).symm.to_iff)
  case long.long a b => exact beq_iff_eq.trans (SignedInt.ext_iff.symm.trans (long.injEq a b).symm.to_iff)
  case coll.coll t xs u ys =>
    exact (Iff.of_eq (Bool.and_eq_true _ _)).trans <|
      (and_congr beq_iff_eq (beqList_iff xs ys)).trans (Iff.of_eq (coll.injEq t xs u ys).symm)
  case tup.tup xs ys => exact (beqList_iff xs ys).trans (Iff.of_eq (tup.injEq xs ys).symm)
  case opt.opt a b => exact (beqOption_iff a b).trans (Iff.of_eq (opt.injEq a b).symm)
  all_goals first
    | exact ⟨fun h => Bool.noConfusion h, fun h => Value.noConfusion h⟩
    | exact ⟨fun _ => rfl, fun _ => rfl⟩
theorem beqList_iff : ∀ as bs : List Value, beqList as bs = true ↔ as = bs
  | [], [] => ⟨fun _ => rfl, fun _ => rfl⟩
  | a :: as, b :: bs => (Iff.of_eq (Bool.and_eq_true _ _)).trans <|
      (and_congr (beq_iff a b) (beqList_iff as bs)).trans (Iff.of_eq (List.cons.injEq a as b bs).symm)
  | [], _ :: _ | _ :: _, [] => ⟨fun h => Bool.noConfusion h, fun h => List.noConfusion h⟩
theorem beqOption_iff : ∀ a b : Option Value, beqOption a b = true ↔ a = b
  | none, none => ⟨fun _ => rfl, fun _ => rfl⟩
  | some a, some b => (beq_iff a b).trans (Iff.of_eq (Option.some.injEq a b).symm)
  | none, some _ | some _, none => ⟨fun h => Bool.noConfusion h, fun h => Option.noConfusion h⟩
end

instance : DecidableEq Value := fun a b => decidable_of_iff _ (beq_iff a b)

mutual
/-- Whether a value has a type: the check a `Constant` of that declared type passes. -/
def hasType : Value → SType → Bool
  | boolean _, .sBoolean | byte _, .sByte | short _, .sShort | int _, .sInt | long _, .sLong
  | bigInt, .sBigInt => true
  | coll t items, .sColl u => t == u && allHaveType items t
  | tup items, .sTuple ts => haveTypes items ts
  | opt none, .sOption _ => true
  | opt (some v), .sOption t => hasType v t
  | _, _ => false
/-- Whether every value of a list has one type. -/
def allHaveType : List Value → SType → Bool
  | [], _ => true
  | v :: vs, t => hasType v t && allHaveType vs t
/-- Whether the values of a list have the types of another, slot by slot. -/
def haveTypes : List Value → List SType → Bool
  | [], [] => true
  | v :: vs, t :: ts => hasType v t && haveTypes vs ts
  | _, _ => false
end

/-- The `Debug` text of a value, as `format!("{0:?}")` prints it in error messages. -/
def debug : Value → String
  | boolean b => s!"Boolean({b})"
  | byte v => s!"Byte({v})"
  | short v => s!"Short({v})"
  | int v => s!"Int({v})"
  | long v => s!"Long({v})"
  | bigInt => "BigInt"
  | coll _ items => "Coll([" ++ ", ".intercalate (items.attach.map fun ⟨v, _⟩ => debug v) ++ "])"
  | tup items => "Tup([" ++ ", ".intercalate (items.attach.map fun ⟨v, _⟩ => debug v) ++ "])"
  | opt none => "Opt(None)"
  | opt (some v) => "Opt(Some(" ++ debug v ++ "))"

end Value

/-- `Constant`: a value with its declared type. -/
structure Constant where
  tpe : SType
  v : Value
deriving DecidableEq

/-- The four integer variants of `Value`, by the width of their payload: the type parameter `T`
of `eval_plus` and its siblings, and the arms of the matches on `lv` in `BinOp::eval`. -/
inductive NumWidth where
  | byte
  | short
  | int
  | long
deriving DecidableEq

namespace NumWidth

/-- The width of the Rust integer: `i8`, `i16`, `i32`, `i64`. -/
def bits : NumWidth → Nat
  | byte => 8
  | short => 16
  | int => 32
  | long => 64

/-- `Into<Value>` for the Rust integer. -/
def toValue : (w : NumWidth) → SignedInt w.bits → Value
  | byte, x => .byte x
  | short, x => .short x
  | int, x => .int x
  | long, x => .long x

/-- The `SType` of the width's values. -/
def tpe : NumWidth → SType
  | byte => .sByte
  | short => .sShort
  | int => .sInt
  | long => .sLong

/-- The Rust name of the integer type. -/
def rustName : NumWidth → String
  | byte => "i8"
  | short => "i16"
  | int => "i32"
  | long => "i64"

end NumWidth

/-- `TryExtractFromError`: a value was not of the variant asked for. -/
structure TryExtractFromError where
  msg : String

/-- Modelled from the spec: `TryExtractFrom<Value>` (not in the sources) is "a typed downcast
`try_extract_into<T>` that returns a typed error when the variant does not match"; the error
names the Rust type asked for and the value found. -/
def tryExtractError (expected : String) (v : Value) : TryExtractFromError :=
  ⟨s!"expected {expected}, found {v.debug}"⟩

/-- `try_extract_into::<i8>` and its siblings: the payload of the width's variant. -/
def NumWidth.tryExtract : (w : NumWidth) → Value → Except TryExtractFromError (SignedInt w.bits)
  | .byte, .byte x | .short, .short x | .int, .int x | .long, .long x => .ok x
  | w, v => .error (tryExtractError w.rustName v)

/-- `try_extract_into::<bool>`. -/
def Value.tryExtractBool : Value → Except TryExtractFromError Bool
  | .boolean b => .ok b
  | v => .error (tryExtractError "bool" v)

namespace NumWidth

@[simp] theorem tryExtract_toValue (w : NumWidth) (x : SignedInt w.bits) :
    w.tryExtract (w.toValue x) = .ok x := by
  cases w <;> rfl

/-- Extraction succeeds exactly on the width's own variant: there is no widening. -/
theorem tryExtract_eq_ok {w : NumWidth} {v : Value} {x : SignedInt w.bits} :
    w.tryExtract v = .ok x ↔ v = w.toValue x := by
  refine ⟨fun h => ?_, fun h => h ▸ tryExtract_toValue w x⟩
  cases w <;> cases v <;> cases h <;> rfl

@[simp] theorem toValue_hasType (w : NumWidth) (x : SignedInt w.bits) :
    (w.toValue x).hasType w.tpe = true := by
  cases w <;> rfl

/-- A value of an integer type is that width's variant. -/
theorem eq_toValue_of_hasType {w : NumWidth} {v : Value} (h : v.hasType w.tpe = true) :
    ∃ x, v = w.toValue x := by
  cases w <;> rcases v with _ | _ | _ | _ | _ | _ | _ | _ | _ | _ <;>
    first | exact ⟨_, rfl⟩ | cases h

end NumWidth

@[simp] theorem Value.tryExtractBool_boolean (b : Bool) : (Value.boolean b).tryExtractBool = .ok b :=
  rfl

theorem Value.tryExtractBool_eq_ok {v : Value} {b : Bool} :
    v.tryExtractBool = .ok b ↔ v = .boolean b := by
  cases v <;> simp [Value.tryExtractBool, eq_comm]

theorem Value.eq_boolean_of_hasType {v : Value} (h : v.hasType .sBoolean = true) :
    ∃ b, v = .boolean b := by
  rcases v with _ | _ | _ | _ | _ | _ | _ | _ | _ | _ <;>
    first | exact ⟨_, rfl⟩ | exact Bool.noConfusion h

end SigmaRust
