import Mathlib.Algebra.Group.Int

/-! Rust's signed primitive integers `i8`, `i16`, `i32` and `i64` as integers of a bit width,
with the operations `BinOp::eval` applies to them: the `num` crate's `CheckedAdd`, `CheckedSub`,
`CheckedMul` and `CheckedDiv`, which are the primitive types' own `checked_*`, and `Ord::max` and
`Ord::min`. A checked operation is `none` exactly where Rust's is `None`: on overflow, and for the
division also on a zero divisor. Division rounds toward zero (`Int.tdiv`), and the only quotient
out of range is `MIN / -1`. -/

namespace SigmaRust

/-- Whether an integer is a value of `i{bits}`, that is lies in `[-2^(bits-1), 2^(bits-1))`. -/
def InRange (bits : Nat) (x : Int) : Prop := -2 ^ (bits - 1) ≤ x ∧ x < 2 ^ (bits - 1)

instance (bits : Nat) : DecidablePred (InRange bits) :=
  fun _ => inferInstanceAs (Decidable (_ ∧ _))

/-- A value of Rust's `i{bits}`. -/
structure SignedInt (bits : Nat) where
  val : Int
  inRange : InRange bits val

namespace SignedInt

variable {bits : Nat}

@[ext] theorem ext {x y : SignedInt bits} (h : x.val = y.val) : x = y := by
  cases x; cases y; cases h; rfl

instance : DecidableEq (SignedInt bits) :=
  fun x y => decidable_of_iff (x.val = y.val) ⟨ext, fun h => h ▸ rfl⟩

/-- `Display`, as the evaluator's error messages print an operand. -/
instance : ToString (SignedInt bits) := ⟨fun x => toString x.val⟩

/-- `MIN`, the least value of `i{bits}`. -/
def minValue (bits : Nat) : Int := -2 ^ (bits - 1)

/-- The integer as a value of `i{bits}`, when it is one. -/
def ofInt? (x : Int) : Option (SignedInt bits) :=
  if h : InRange bits x then some ⟨x, h⟩ else none

theorem ofInt?_eq_some {x : Int} {y : SignedInt bits} : ofInt? x = some y ↔ y.val = x := by
  unfold ofInt?
  split
  · exact ⟨fun h => (by cases h; rfl), fun h => (by cases y; cases h; rfl)⟩
  · exact ⟨fun h => (by cases h), fun h => absurd (h ▸ y.inRange) ‹_›⟩

theorem ofInt?_eq_none {x : Int} : (ofInt? x : Option (SignedInt bits)) = none ↔ ¬ InRange bits x := by
  unfold ofInt?
  split <;> simp_all

/-- The quotient rounded toward zero is a value of `i{bits}` unless it is `MIN / -1`. -/
theorem tdiv_inRange {l r : Int} (hl : InRange bits l) (hr : r ≠ 0)
    (hov : ¬ (l = minValue bits ∧ r = -1)) : InRange bits (l.tdiv r) := by
  unfold InRange minValue at *
  have hk : (0 : Int) < 2 ^ (bits - 1) := by exact_mod_cast Nat.two_pow_pos _
  rcases (by omega : r = 1 ∨ r = -1 ∨ 2 ≤ r.natAbs) with rfl | rfl | hr2
  · rwa [Int.tdiv_one]
  · simp only [Int.tdiv_neg, Int.tdiv_one]; omega
  · have habs : (l.tdiv r).natAbs < (2 ^ (bits - 1) : Int).natAbs := by
      rw [Int.natAbs_tdiv]
      change l.natAbs / r.natAbs < _
      have h1 := @Nat.div_le_div_right _ _ r.natAbs (by omega : l.natAbs ≤ (2 ^ (bits - 1) : Int).natAbs)
      have h2 := @Nat.div_le_div_left (2 ^ (bits - 1) : Int).natAbs _ _ hr2 (by omega)
      omega
    omega

/-- `checked_add`. -/
def checkedAdd (l r : SignedInt bits) : Option (SignedInt bits) := ofInt? (l.val + r.val)

/-- `checked_sub`. -/
def checkedSub (l r : SignedInt bits) : Option (SignedInt bits) := ofInt? (l.val - r.val)

/-- `checked_mul`. -/
def checkedMul (l r : SignedInt bits) : Option (SignedInt bits) := ofInt? (l.val * r.val)

/-- `checked_div`: `None` if `rhs == 0 || (self == MIN && rhs == -1)`, otherwise the quotient
rounded toward zero, which then cannot overflow. -/
def checkedDiv (l r : SignedInt bits) : Option (SignedInt bits) :=
  if h : r.val = 0 ∨ (l.val = minValue bits ∧ r.val = -1) then none
  else some ⟨l.val.tdiv r.val, tdiv_inRange l.inRange (not_or.mp h).1 (not_or.mp h).2⟩

/-- `Ord::max`. -/
def max (l r : SignedInt bits) : SignedInt bits := if l.val ≤ r.val then r else l

/-- `Ord::min`. -/
def min (l r : SignedInt bits) : SignedInt bits := if l.val ≤ r.val then l else r

/-- `checked_div` is the quotient rounded toward zero, when the divisor is not zero and the
quotient is a value of `i{bits}`: the guard on `MIN / -1` is exactly the range check. -/
theorem checkedDiv_eq (l r : SignedInt bits) :
    checkedDiv l r = if r.val = 0 then none else ofInt? (l.val.tdiv r.val) := by
  unfold checkedDiv
  by_cases hr : r.val = 0
  · simp [hr]
  by_cases hov : l.val = minValue bits ∧ r.val = -1
  · have hq : ¬ InRange bits (l.val.tdiv r.val) := by
      simp only [InRange, hov.1, hov.2, Int.tdiv_neg, Int.tdiv_one, minValue]; omega
    rw [dif_pos (Or.inr hov), if_neg hr, ofInt?_eq_none.mpr hq]
  · simp [hr, hov, ofInt?, tdiv_inRange l.inRange hr hov]

@[simp] theorem max_val (l r : SignedInt bits) : (max l r).val = Max.max l.val r.val := by
  unfold max; split <;> omega

@[simp] theorem min_val (l r : SignedInt bits) : (min l r).val = Min.min l.val r.val := by
  unfold min; split <;> omega

end SignedInt

end SigmaRust
