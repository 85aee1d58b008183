import SigmaRust.SignedInt

/-! The byte layer of the wire format, `sigma_ser` and the byte readers and writers of the
serializer, none of which is in the sources. It is modelled from the spec: "Integers use the
project's variable-length encoding (VLQ with zig-zag for signed)", and "unknown opcode, truncated
input, type mismatch during reconstruction, recursion depth exceeded, and invalid VLQ each yield
distinct parse errors". A reader is a parser over the bytes left to read. A VLQ holds seven bits a
byte, low group first, with the high bit set on every byte but the last. `get_u64` takes at most
ten bytes and ors their groups into a `u64`, so it rejects an eleventh byte but drops the bits past
the 64th of a ten-byte VLQ: an overlong VLQ is read modulo `2 ^ 64`. Every reader here reads back
what its writer wrote, whatever follows it. -/

namespace SigmaRust

/-- Modelled from the spec: `SerializationError`, a variant for each parse failure it names. -/
inductive SerializationError where
  | unexpectedEnd
  | invalidOpCode (code : UInt8)
  | invalidTypeCode (code : UInt8)
  | vlqDecodingFailed
  | valueOutOfBounds (msg : String)
  | notSupported (msg : String)
  | typeMismatch
  | constantNotFound (id : Nat)
  | depthExceeded

/-- Modelled from the spec: `SigmaByteRead`, a parser over the bytes left to read. -/
abbrev ByteReader (α : Type) := StateT (List UInt8) (Except SerializationError) α

/-- Modelled from the spec: `get_u8`. -/
def getU8 : ByteReader UInt8
  | [] => .error .unexpectedEnd
  | b :: rest => .ok (b, rest)

/-- Modelled from the spec: `peek_u8`, the next byte, left to be read. -/
def peekU8 : ByteReader UInt8
  | [] => .error .unexpectedEnd
  | b :: rest => .ok (b, b :: rest)

/-- Modelled from the spec: `k` reads of `p`, one after the other. -/
def getN {α : Type} (p : ByteReader α) : Nat → ByteReader (List α)
  | 0 => pure []
  | k + 1 => do
    let a ← p
    let as ← getN p k
    return a :: as

/-- Modelled from the spec: the VLQ writer of `put_u64`, with at most `k + 1` bytes. -/
def putVlq : Nat → Nat → List UInt8
  | 0, n => [n.toUInt8]
  | k + 1, n => if n < 128 then [n.toUInt8] else (n % 128 + 128).toUInt8 :: putVlq k (n / 128)

/-- Modelled from the spec: the loop of `get_u64` over at most `k` bytes, the seven-bit groups
it reads, low group first, as one number; a `k`-th byte with the high bit set is
`VlqDecodingFailed`. The number is not yet wrapped: `getUVlq` reduces it modulo `2 ^ 64`, as the
`u64` it is ored into does. -/
def getVlq : Nat → ByteReader Nat
  | 0 => throw .vlqDecodingFailed
  | k + 1 => do
    let b ← getU8
    if b.toNat < 128 then return b.toNat
    else return b.toNat - 128 + 128 * (← getVlq k)

/-- Modelled from the spec: `put_u64`, an unsigned VLQ of at most ten bytes. -/
def putUVlq (n : Nat) : List UInt8 := putVlq 9 n

/-- Modelled from the spec: `get_u64`, at most ten bytes whose groups are ored into a `u64`: the
bits past the 64th of a ten-byte VLQ are dropped, so an overlong VLQ is read modulo `2 ^ 64`. -/
def getUVlq : ByteReader Nat := do
  let n ← getVlq 10
  return n % 2 ^ 64

/-- The zig-zag map: `0, -1, 1, -2, …` to `0, 1, 2, 3, …`. -/
def zigZag (i : Int) : Nat := if 0 ≤ i then (2 * i).toNat else (-2 * i - 1).toNat

/-- The inverse of `zigZag`. -/
def unZigZag (n : Nat) : Int := if n % 2 = 0 then ((n / 2 : Nat) : Int) else -((n / 2 : Nat) : Int) - 1

/-- Modelled from the spec: `put_i16`, `put_i32`, `put_i64`, the zig-zag VLQ. -/
def putSigned {bits : Nat} (x : SignedInt bits) : List UInt8 := putUVlq (zigZag x.val)

/-- Modelled from the spec: `get_i16`, `get_i32`, `get_i64`, a zig-zag VLQ in the width's range. -/
def getSigned (bits : Nat) : ByteReader (SignedInt bits) := do
  let n ← getUVlq
  match SignedInt.ofInt? (unZigZag n) with
  | some x => return x
  | none => throw (.valueOutOfBounds s!"{n}")

/-- Modelled from the spec: `put_i8`, the byte of two's complement. -/
def putI8 (x : SignedInt 8) : UInt8 := (x.val % 256).toNat.toUInt8

/-- The value of a byte of two's complement. -/
def i8OfByte (b : UInt8) : Int := if b.toNat < 128 then b.toNat else (b.toNat : Int) - 256

theorem i8OfByte_inRange (b : UInt8) : InRange 8 (i8OfByte b) := by
  have := b.toNat_lt_size
  simp only [InRange, i8OfByte, UInt8.size] at *
  split <;> omega

/-- Modelled from the spec: `get_i8`. -/
def getI8 : ByteReader (SignedInt 8) := do
  let b ← getU8
  return ⟨i8OfByte b, i8OfByte_inRange b⟩

namespace ByteReader

variable {α β : Type}

theorem bind_of_ok {p : ByteReader α} {f : α → ByteReader β} {bytes rest : List UInt8} {a : α}
    (h : p bytes = .ok (a, rest)) : (p >>= f) bytes = f a rest := by
  simp only [bind, StateT.bind, h]
  rfl

theorem bind_of_error {p : ByteReader α} {f : α → ByteReader β} {bytes : List UInt8}
    {e : SerializationError} (h : p bytes = .error e) : (p >>= f) bytes = .error e := by
  simp only [bind, StateT.bind, h]
  rfl

theorem bind_eq_ok {p : ByteReader α} {f : α → ByteReader β} {bytes rest : List UInt8} {b : β} :
    (p >>= f) bytes = .ok (b, rest) ↔ ∃ a r, p bytes = .ok (a, r) ∧ f a r = .ok (b, rest) := by
  cases h : p bytes with
  | error e => simp [bind_of_error h]
  | ok x =>
    obtain ⟨a, r⟩ := x
    rw [bind_of_ok h]
    exact ⟨fun hf => ⟨a, r, rfl, hf⟩, fun ⟨_, _, he, hf⟩ => by cases he; exact hf⟩

theorem bind_eq_error {p : ByteReader α} {f : α → ByteReader β} {bytes : List UInt8}
    {e : SerializationError} :
    (p >>= f) bytes = .error e ↔ p bytes = .error e ∨ ∃ a r, p bytes = .ok (a, r) ∧ f a r = .error e := by
  cases h : p bytes with
  | error e' => simp [bind_of_error h]
  | ok x =>
    obtain ⟨a, r⟩ := x
    rw [bind_of_ok h]
    exact ⟨fun hf => .inr ⟨a, r, rfl, hf⟩, fun
      | .inl he => nomatch he
      | .inr ⟨_, _, he, hf⟩ => by cases he; exact hf⟩

@[simp]
theorem pure_apply (a : α) (bytes : List UInt8) : (pure a : ByteReader α) bytes = .ok (a, bytes) :=
  rfl

@[simp]
theorem throw_apply (e : SerializationError) (bytes : List UInt8) :
    (throw e : ByteReader α) bytes = .error e :=
  rfl

end ByteReader

theorem getU8_cons (b : UInt8) (rest : List UInt8) : getU8 (b :: rest) = .ok (b, rest) := rfl

theorem toNat_toUInt8 {n : Nat} (h : n < 256) : n.toUInt8.toNat = n :=
  UInt8.toNat_ofNat_of_lt h

/-- A last byte, below 128, ends a VLQ. -/
theorem getVlq_last (k : Nat) {n : Nat} (hn : n < 128) (rest : List UInt8) :
    getVlq (k + 1) (n.toUInt8 :: rest) = .ok (n, rest) := by
  rw [getVlq, ByteReader.bind_of_ok (getU8_cons _ _), toNat_toUInt8 (by omega), if_pos hn]
  rfl

theorem getVlq_putVlq (k n : Nat) (h : n < 128 ^ (k + 1)) (rest : List UInt8) :
    getVlq (k + 1) (putVlq k n ++ rest) = .ok (n, rest) := by
  induction k generalizing n with
  | zero => exact getVlq_last 0 (by simpa using h) rest
  | succ k ih =>
    by_cases hn : n < 128
    · rw [putVlq, if_pos hn]
      exact getVlq_last _ hn rest
    · have hdiv : n / 128 < 128 ^ (k + 1) := by
        rw [Nat.div_lt_iff_lt_mul (by decide)]
        simpa [Nat.pow_succ] using h
      rw [putVlq, if_neg hn, List.cons_append, getVlq, ByteReader.bind_of_ok (getU8_cons _ _),
        toNat_toUInt8 (by omega), if_neg (by omega), ByteReader.bind_of_ok (ih _ hdiv)]
      show Except.ok (_, rest) = _
      congr 2
      omega

/-- A value below `128 ^ m`, for `m ≥ 1`, is written in at most `m` bytes. -/
theorem putVlq_length_le (k : Nat) {n m : Nat} (hm : 0 < m) (h : n < 128 ^ m) :
    (putVlq k n).length ≤ m := by
  induction k generalizing n m with
  | zero => exact hm
  | succ k ih =>
    rw [putVlq]
    split
    · exact hm
    · rename_i hn
      obtain ⟨m, rfl⟩ : ∃ m', m = m' + 1 := ⟨m - 1, by omega⟩
      have hm' : 0 < m := Nat.pos_of_ne_zero fun h0 => hn (by simpa [h0] using h)
      have hdiv : n / 128 < 128 ^ m := by
        rw [Nat.div_lt_iff_lt_mul (by decide)]
        simpa [Nat.pow_succ] using h
      simpa using ih hm' hdiv

theorem putVlq_length_pos (k n : Nat) : 0 < (putVlq k n).length := by
  cases k with
  | zero => simp [putVlq]
  | succ k => rw [putVlq]; split <;> simp

theorem getUVlq_putUVlq {n : Nat} (h : n < 2 ^ 64) (rest : List UInt8) :
    getUVlq (putUVlq n ++ rest) = .ok (n, rest) := by
  have hread : getVlq 10 (putUVlq n ++ rest) = .ok (n, rest) :=
    getVlq_putVlq 9 n (lt_of_lt_of_le h (by decide)) rest
  rw [getUVlq, ByteReader.bind_of_ok hread, ByteReader.pure_apply, Nat.mod_eq_of_lt h]

/-- What `get_u64` reads fits a `u64`. -/
theorem getUVlq_lt {bytes rest : List UInt8} {n : Nat} (h : getUVlq bytes = .ok (n, rest)) :
    n < 2 ^ 64 := by
  obtain ⟨m, r, -, hk⟩ := ByteReader.bind_eq_ok.mp h
  cases hk
  exact Nat.mod_lt _ (by decide)

theorem unZigZag_zigZag (i : Int) : unZigZag (zigZag i) = i := by
  unfold zigZag unZigZag
  split_ifs <;> omega

theorem zigZag_lt {bits : Nat} {i : Int} (hb : 0 < bits) (h : InRange bits i) :
    zigZag i < 2 ^ bits := by
  have hpow : (2 : Int) ^ bits = 2 * 2 ^ (bits - 1) := by
    rw [← Int.pow_succ', Nat.sub_add_cancel hb]
  have hcast : ((2 ^ bits : Nat) : Int) = 2 ^ bits := by push_cast; rfl
  unfold InRange at h
  unfold zigZag
  split_ifs <;> omega

theorem getSigned_putSigned {bits : Nat} (hb : 0 < bits) (hb64 : bits ≤ 64) (x : SignedInt bits)
    (rest : List UInt8) : getSigned bits (putSigned x ++ rest) = .ok (x, rest) := by
  have hlt : zigZag x.val < 2 ^ 64 :=
    lt_of_lt_of_le (zigZag_lt hb x.inRange) (Nat.pow_le_pow_right (by decide) hb64)
  have hx : (SignedInt.ofInt? (unZigZag (zigZag x.val)) : Option (SignedInt bits)) = some x := by
    rw [unZigZag_zigZag, SignedInt.ofInt?_eq_some]
  rw [getSigned, putSigned, ByteReader.bind_of_ok (getUVlq_putUVlq hlt rest), hx]
  rfl

theorem i8OfByte_putI8 (x : SignedInt 8) : i8OfByte (putI8 x) = x.val := by
  obtain ⟨h₁, h₂⟩ : -128 ≤ x.val ∧ x.val < 128 := x.inRange
  have hlt : (x.val % 256).toNat < 256 := by omega
  simp only [i8OfByte, putI8, toNat_toUInt8 hlt]
  split <;> omega

theorem getI8_putI8 (x : SignedInt 8) (rest : List UInt8) : getI8 (putI8 x :: rest) = .ok (x, rest) := by
  have hx : (⟨i8OfByte (putI8 x), i8OfByte_inRange _⟩ : SignedInt 8) = x :=
    SignedInt.ext (i8OfByte_putI8 x)
  rw [getI8, ByteReader.bind_of_ok (getU8_cons _ _), ByteReader.pure_apply, hx]

namespace ByteReader

variable {α β : Type}

/-- `p` reads `a` back from `bytes`, whatever follows them. -/
def ReadsBack (p : ByteReader α) (a : α) (bytes : List UInt8) : Prop :=
  ∀ rest, p (bytes ++ rest) = .ok (a, rest)

/-- What `p` returns satisfies `P`, and was read from a prefix of the bytes, the rest left. -/
def Sound (P : α → Prop) (p : ByteReader α) : Prop :=
  ∀ bytes a rest, p bytes = .ok (a, rest) → P a ∧ ∃ consumed : List UInt8, bytes = consumed ++ rest

namespace ReadsBack

theorem pure (a : α) : ReadsBack (Pure.pure a) a [] := fun _ => rfl

theorem bind {p : ByteReader α} {f : α → ByteReader β} {a : α} {b : β} {b₁ b₂ : List UInt8}
    (hp : ReadsBack p a b₁) (hf : ReadsBack (f a) b b₂) : ReadsBack (p >>= f) b (b₁ ++ b₂) :=
  fun rest => by rw [List.append_assoc, bind_of_ok (hp _), hf]

theorem map {p : ByteReader α} {a : α} {bytes : List UInt8} (hp : ReadsBack p a bytes)
    (g : α → β) : ReadsBack (p >>= fun x => Pure.pure (g x)) (g a) bytes :=
  fun rest => by rw [bind_of_ok (hp rest)]; rfl

theorem getU8 (b : UInt8) : ReadsBack SigmaRust.getU8 b [b] := fun _ => rfl

theorem getUVlq {n : Nat} (h : n < 2 ^ 64) : ReadsBack SigmaRust.getUVlq n (putUVlq n) :=
  getUVlq_putUVlq h

theorem getN_zero (p : ByteReader α) : ReadsBack (SigmaRust.getN p 0) [] [] := fun _ => rfl

theorem getN_succ {p : ByteReader α} {n : Nat} {a : α} {as : List α} {b bs : List UInt8}
    (hp : ReadsBack p a b) (hn : ReadsBack (SigmaRust.getN p n) as bs) :
    ReadsBack (SigmaRust.getN p (n + 1)) (a :: as) (b ++ bs) := fun rest => by
  rw [List.append_assoc, SigmaRust.getN, bind_of_ok (hp _), bind_of_ok (hn _)]
  rfl

end ReadsBack

namespace Sound

theorem pure {P : α → Prop} {a : α} (h : P a) : Sound P (Pure.pure a) := fun _ _ _ hp => by
  cases hp
  exact ⟨h, [], rfl⟩

theorem throw {P : α → Prop} (e : SerializationError) : Sound P (MonadExcept.throw e) :=
  fun _ _ _ hp => by cases hp

theorem bind {P : β → Prop} {Q : α → Prop} {p : ByteReader α} {f : α → ByteReader β}
    (hp : Sound Q p) (hf : ∀ a, Q a → Sound P (f a)) : Sound P (p >>= f) := fun _ _ _ h => by
  obtain ⟨a, r, h₁, h₂⟩ := bind_eq_ok.mp h
  obtain ⟨ha, c₁, rfl⟩ := hp _ _ _ h₁
  obtain ⟨hb, c₂, rfl⟩ := hf a ha _ _ _ h₂
  exact ⟨hb, c₁ ++ c₂, (List.append_assoc _ _ _).symm⟩

theorem mono {P Q : α → Prop} {p : ByteReader α} (hp : Sound P p) (h : ∀ a, P a → Q a) :
    Sound Q p := fun _ _ _ hr => (hp _ _ _ hr).imp_left (h _)

theorem getU8 : Sound (fun _ => True) SigmaRust.getU8 := fun bytes _ _ h => by
  cases bytes with
  | nil => cases h
  | cons b r => cases h; exact ⟨trivial, [_], rfl⟩

theorem peekU8 : Sound (fun _ => True) SigmaRust.peekU8 := fun bytes _ _ h => by
  cases bytes with
  | nil => cases h
  | cons b r => cases h; exact ⟨trivial, [], rfl⟩

theorem getVlq : ∀ k, Sound (fun _ => True) (SigmaRust.getVlq k)
  | 0 => throw _
  | k + 1 => bind getU8 fun b _ => by
    by_cases hb : b.toNat < 128
    · simp only [hb, if_true]
      exact pure trivial
    · simp only [hb, if_false]
      exact bind (getVlq k) fun _ _ => pure trivial

theorem getUVlq : Sound (· < 2 ^ 64) SigmaRust.getUVlq :=
  bind (getVlq 10) fun _ _ => pure (Nat.mod_lt _ (by decide))

theorem getSigned (bits : Nat) : Sound (fun _ => True) (SigmaRust.getSigned bits) :=
  bind getUVlq fun n _ => by
    cases (SignedInt.ofInt? (unZigZag n) : Option (SignedInt bits))
    · exact throw _
    · exact pure trivial

theorem getI8 : Sound (fun _ => True) SigmaRust.getI8 := bind getU8 fun _ _ => pure trivial

/-- `k` sound reads return `k` values, each satisfying what the reader ensures. -/
theorem getN {P : α → Prop} {p : ByteReader α} (hp : Sound P p) :
    ∀ n, Sound (fun as => as.length = n ∧ ∀ a ∈ as, P a) (SigmaRust.getN p n)
  | 0 => pure ⟨rfl, fun _ h => nomatch h⟩
  | n + 1 => bind hp fun _ ha => bind (getN hp n) fun _ has =>
    pure ⟨congrArg (· + 1) has.1, List.forall_mem_cons.mpr ⟨ha, has.2⟩⟩

end Sound

end ByteReader

end SigmaRust
