import SigmaRust.Vlq
import SigmaRust.Value
import SigmaRust.Result

/-! The wire format of types, values and constants. None of it is in the sources; it is modelled
from the spec: "`SType`: single-byte tag for ground types; composite types prefix a tag and
recurse", and a constant is its type tag and its "value payload (fixed-width for primitives,
`length:bytes` for arrays, recursive for compound types)". A collection's payload is its length
and its items, a tuple's its items in order, an option's a tag byte and the value it holds. The
reader of a payload is driven by the type read before it, so what it returns has that type.

Each reader reads back what its writer wrote, whatever follows it, and whatever the bytes, what a
reader returns was read from a prefix and can be written again. The readers also hold a
`ConstantStore`, the constant table of the spec, whose entries are well formed: typed as declared and serializable. -/

namespace SigmaRust

open ByteReader

/-- Modelled from the spec: the `std::io::Error` a writer may return. -/
structure IoError where
  msg : String

/-- Modelled from the spec: a Rust `usize` (a length, a count or an index) as an unsigned VLQ. A
number past `u64` is no `usize`, and the writer refuses it. -/
def putUsize (n : Nat) : Except IoError (List UInt8) :=
  if n < 2 ^ 64 then .ok (putUVlq n) else .error ⟨"usize out of range"⟩

theorem putUsize_eq_ok {n : Nat} {b : List UInt8} (h : putUsize n = .ok b) :
    n < 2 ^ 64 ∧ b = putUVlq n := by
  unfold putUsize at h
  split at h
  · cases h
    exact ⟨‹_›, rfl⟩
  · cases h

theorem putUsize_of_lt {n : Nat} (h : n < 2 ^ 64) : putUsize n = .ok (putUVlq n) := if_pos h

theorem putUVlq_ne_nil (n : Nat) : putUVlq n ≠ [] :=
  List.ne_nil_of_length_pos (putVlq_length_pos 9 n)

/-! ## Types -/

namespace SType

mutual
/-- Modelled from the spec: `SType::sigma_serialize`, a tag byte, and after the tag of a
composite type its element types (a tuple's with their count). -/
def sigmaSerialize : SType → Except IoError (List UInt8)
  | sBoolean => .ok [1]
  | sByte => .ok [2]
  | sShort => .ok [3]
  | sInt => .ok [4]
  | sLong => .ok [5]
  | sBigInt => .ok [6]
  | sAny => .ok [97]
  | sColl t => do return 12 :: (← sigmaSerialize t)
  | sOption t => do return 36 :: (← sigmaSerialize t)
  | sTuple ts => do return 96 :: ((← putUsize ts.length) ++ (← sigmaSerializeList ts))
/-- Modelled from the spec: the element types of a tuple, one after the other. -/
def sigmaSerializeList : List SType → Except IoError (List UInt8)
  | [] => .ok []
  | t :: ts => do return (← sigmaSerialize t) ++ (← sigmaSerializeList ts)
end

/-- Modelled from the spec: `SType::sigma_parse` of a type nested at most `k` deep. -/
def sigmaParseUpTo : Nat → ByteReader SType
  | 0 => throw .unexpectedEnd
  | k + 1 => do
    let code ← getU8
    match code with
    | 1 => return sBoolean
    | 2 => return sByte
    | 3 => return sShort
    | 4 => return sInt
    | 5 => return sLong
    | 6 => return sBigInt
    | 97 => return sAny
    | 12 => return sColl (← sigmaParseUpTo k)
    | 36 => return sOption (← sigmaParseUpTo k)
    | 96 => do
      let n ← getUVlq
      return sTuple (← getN (sigmaParseUpTo k) n)
    | _ => throw (.invalidTypeCode code)

/-- Modelled from the spec: `SType::sigma_parse`. Each nested type reads its own tag, so the bytes
left bound the nesting, and running out of them is `UnexpectedEnd`. -/
def sigmaParse : ByteReader SType := fun bytes => sigmaParseUpTo bytes.length bytes

/-- A type is written from a tag up to `LAST_CONSTANT_CODE`, which no operator's op code is. -/
theorem sigmaSerialize_eq_cons {t : SType} {b : List UInt8} (h : t.sigmaSerialize = .ok b) :
    ∃ code r, b = code :: r ∧ code ≤ 112 := by
  cases t <;> (try cases h) <;> (try exact ⟨_, _, rfl, by decide⟩) <;>
    obtain ⟨_, -, h⟩ := except_bind_eq_ok.mp h <;> first
    | (cases h; exact ⟨_, _, rfl, by decide⟩)
    | (obtain ⟨_, -, h⟩ := except_bind_eq_ok.mp h; cases h; exact ⟨_, _, rfl, by decide⟩)

mutual
theorem readsBack_sigmaParseUpTo : ∀ (t : SType) {b : List UInt8}, t.sigmaSerialize = .ok b →
    ∀ k, b.length ≤ k → ReadsBack (sigmaParseUpTo k) t b
  | sColl t, _, h, k + 1, hk => by
    obtain ⟨bt, ht, h⟩ := except_bind_eq_ok.mp h
    cases h
    exact (ReadsBack.getU8 12).bind
      ((readsBack_sigmaParseUpTo t ht k (Nat.le_of_succ_le_succ hk)).map sColl)
  | sOption t, _, h, k + 1, hk => by
    obtain ⟨bt, ht, h⟩ := except_bind_eq_ok.mp h
    cases h
    exact (ReadsBack.getU8 36).bind
      ((readsBack_sigmaParseUpTo t ht k (Nat.le_of_succ_le_succ hk)).map sOption)
  | sTuple ts, _, h, k + 1, hk => by
    obtain ⟨l, hl, h⟩ := except_bind_eq_ok.mp h
    obtain ⟨bs, hbs, h⟩ := except_bind_eq_ok.mp h
    cases h
    obtain ⟨hlt, rfl⟩ := putUsize_eq_ok hl
    have hlen : bs.length ≤ k := by
      simp only [List.length_cons, List.length_append] at hk
      omega
    exact (ReadsBack.getU8 96).bind ((ReadsBack.getUVlq hlt).bind
      ((readsBack_getN_sigmaParseUpTo ts hbs k hlen).map sTuple))
  | sBoolean, _, h, k + 1, _ | sByte, _, h, k + 1, _ | sShort, _, h, k + 1, _
  | sInt, _, h, k + 1, _ | sLong, _, h, k + 1, _ | sBigInt, _, h, k + 1, _
  | sAny, _, h, k + 1, _ => by cases h; exact fun _ => rfl
  | t, b, h, 0, hk => by
    obtain ⟨_, _, rfl, -⟩ := sigmaSerialize_eq_cons h
    cases hk
theorem readsBack_getN_sigmaParseUpTo : ∀ (ts : List SType) {b : List UInt8},
    sigmaSerializeList ts = .ok b → ∀ k, b.length ≤ k →
      ReadsBack (getN (sigmaParseUpTo k) ts.length) ts b
  | [], _, h, _, _ => by cases h; exact ReadsBack.getN_zero _
  | t :: ts, _, h, k, hk => by
    obtain ⟨bt, ht, h⟩ := except_bind_eq_ok.mp h
    obtain ⟨bs, hbs, h⟩ := except_bind_eq_ok.mp h
    cases h
    rw [List.length_append] at hk
    exact (readsBack_sigmaParseUpTo t ht k (by omega)).getN_succ
      (readsBack_getN_sigmaParseUpTo ts hbs k (by omega))
end

/-- A type is read back from what `SType::sigma_serialize` writes, whatever follows it. -/
theorem readsBack_sigmaParse {t : SType} {b : List UInt8} (h : t.sigmaSerialize = .ok b) :
    ReadsBack sigmaParse t b := fun rest =>
  readsBack_sigmaParseUpTo t h _ (by simp only [List.length_append]; omega) rest

theorem sigmaSerializeList_of_forall :
    ∀ {ts : List SType}, (∀ t ∈ ts, ∃ b, t.sigmaSerialize = .ok b) →
      ∃ b, sigmaSerializeList ts = .ok b
  | [], _ => ⟨[], rfl⟩
  | t :: ts, h => by
    obtain ⟨bt, ht⟩ := h t (List.mem_cons_self _ _)
    obtain ⟨bs, hbs⟩ := sigmaSerializeList_of_forall fun t' ht' => h t' (List.mem_cons_of_mem _ ht')
    exact ⟨bt ++ bs, by simp only [sigmaSerializeList, ht, hbs]; rfl⟩

/-- Whatever the bytes, a type the reader returns can be written again. -/
theorem sound_sigmaParseUpTo :
    ∀ k, Sound (fun t => ∃ b, t.sigmaSerialize = .ok b) (sigmaParseUpTo k)
  | 0 => Sound.throw _
  | k + 1 => Sound.bind Sound.getU8 fun code _ => by
    have ih := sound_sigmaParseUpTo k
    split
    any_goals exact Sound.pure ⟨_, rfl⟩
    · exact Sound.bind ih fun t ⟨b, hb⟩ => Sound.pure ⟨_, by simp only [sigmaSerialize, hb]; rfl⟩
    · exact Sound.bind ih fun t ⟨b, hb⟩ => Sound.pure ⟨_, by simp only [sigmaSerialize, hb]; rfl⟩
    · refine Sound.bind Sound.getUVlq fun n hn => Sound.bind (Sound.getN ih n) fun ts hts =>
        Sound.pure ?_
      obtain ⟨bs, hbs⟩ := sigmaSerializeList_of_forall hts.2
      exact ⟨_, by simp only [sigmaSerialize, hts.1, putUsize_of_lt hn, hbs]; rfl⟩
    · exact Sound.throw _

theorem sound_sigmaParse : Sound (fun t => ∃ b, t.sigmaSerialize = .ok b) sigmaParse :=
  fun bytes => sound_sigmaParseUpTo bytes.length bytes

end SType

/-! ## Values -/

namespace Value

mutual
/-- Modelled from the spec: the payload of a value. A `BigInt` carries no magnitude in this
version of the source, so its `length:bytes` is empty. -/
def sigmaSerializeData : Value → Except IoError (List UInt8)
  | boolean b => .ok [if b then 1 else 0]
  | byte x => .ok [putI8 x]
  | short x => .ok (putSigned x)
  | int x => .ok (putSigned x)
  | long x => .ok (putSigned x)
  | bigInt => .ok (putUVlq 0)
  | coll _ items => do return (← putUsize items.length) ++ (← sigmaSerializeDataList items)
  | tup items => sigmaSerializeDataList items
  | opt none => .ok [0]
  | opt (some v) => do return 1 :: (← sigmaSerializeData v)
/-- Modelled from the spec: the payloads of values, one after the other. -/
def sigmaSerializeDataList : List Value → Except IoError (List UInt8)
  | [] => .ok []
  | v :: vs => do return (← sigmaSerializeData v) ++ (← sigmaSerializeDataList vs)
end

mutual
/-- Modelled from the spec: the payload of a value of a type. -/
def sigmaParseData : SType → ByteReader Value
  | .sBoolean => do return boolean ((← getU8) != 0)
  | .sByte => do return byte (← getI8)
  | .sShort => do return short (← getSigned 16)
  | .sInt => do return int (← getSigned 32)
  | .sLong => do return long (← getSigned 64)
  | .sBigInt => do
    let n ← getUVlq
    let _ ← getN getU8 n
    return bigInt
  | .sColl t => do
    let n ← getUVlq
    return coll t (← getN (sigmaParseData t) n)
  | .sOption t => do
    if (← getU8) = 0 then return opt none else return opt (some (← sigmaParseData t))
  | .sTuple ts => do return tup (← sigmaParseDataList ts)
  | .sAny => throw (.notSupported "data of type SAny")
/-- Modelled from the spec: the payloads of a tuple's items, by their types. -/
def sigmaParseDataList : List SType → ByteReader (List Value)
  | [] => pure []
  | t :: ts => do
    let v ← sigmaParseData t
    let vs ← sigmaParseDataList ts
    return v :: vs
end

theorem allHaveType_cons {v : Value} {vs : List Value} {t : SType} :
    allHaveType (v :: vs) t = true ↔ v.hasType t = true ∧ allHaveType vs t = true :=
  Iff.of_eq (Bool.and_eq_true (v.hasType t) (allHaveType vs t))

theorem haveTypes_cons {v : Value} {vs : List Value} {t : SType} {ts : List SType} :
    haveTypes (v :: vs) (t :: ts) = true ↔ v.hasType t = true ∧ haveTypes vs ts = true :=
  Iff.of_eq (Bool.and_eq_true (v.hasType t) (haveTypes vs ts))

mutual
theorem readsBack_sigmaParseData : ∀ (v : Value) {t : SType} {d : List UInt8},
    v.hasType t = true → v.sigmaSerializeData = .ok d → ReadsBack (sigmaParseData t) v d
  | boolean b, t, _, ht, h => by
    cases t <;> cases ht
    cases h
    cases b <;> exact (ReadsBack.getU8 _).map _
  | byte x, t, _, ht, h => by
    cases t <;> cases ht
    cases h
    exact (show ReadsBack getI8 x [putI8 x] from getI8_putI8 x).map byte
  | short x, t, _, ht, h => by
    cases t <;> cases ht
    cases h
    exact (show ReadsBack (getSigned 16) x (putSigned x) from
      getSigned_putSigned (by decide) (by decide) x).map short
  | int x, t, _, ht, h => by
    cases t <;> cases ht
    cases h
    exact (show ReadsBack (getSigned 32) x (putSigned x) from
      getSigned_putSigned (by decide) (by decide) x).map int
  | long x, t, _, ht, h => by
    cases t <;> cases ht
    cases h
    exact (show ReadsBack (getSigned 64) x (putSigned x) from
      getSigned_putSigned (by decide) (by decide) x).map long
  | bigInt, t, _, ht, h => by
    cases t <;> cases ht
    cases h
    exact fun _ => rfl
  | coll u items, t, _, ht, h => by
    cases t with
    | sColl t =>
      obtain ⟨hut, hitems⟩ := Bool.and_eq_true _ _ ▸ ht
      cases beq_iff_eq.mp hut
      obtain ⟨l, hl, h⟩ := except_bind_eq_ok.mp h
      obtain ⟨ds, hds, h⟩ := except_bind_eq_ok.mp h
      cases h
      obtain ⟨hlt, rfl⟩ := putUsize_eq_ok hl
      exact (ReadsBack.getUVlq hlt).bind ((readsBack_getN_sigmaParseData items hitems hds).map _)
    | _ => cases ht
  | tup items, t, _, ht, h => by
    cases t with
    | sTuple ts => exact (readsBack_sigmaParseDataList items ht h).map tup
    | _ => cases ht
  | opt none, t, _, ht, h => by
    cases t with
    | sOption t =>
      cases h
      exact (ReadsBack.getU8 0).bind (ReadsBack.pure _)
    | _ => cases ht
  | opt (some v), t, _, ht, h => by
    cases t with
    | sOption t =>
      obtain ⟨dv, hdv, h⟩ := except_bind_eq_ok.mp h
      cases h
      exact (ReadsBack.getU8 1).bind ((readsBack_sigmaParseData v ht hdv).map _)
    | _ => cases ht
theorem readsBack_getN_sigmaParseData : ∀ (items : List Value) {t : SType} {d : List UInt8},
    allHaveType items t = true → sigmaSerializeDataList items = .ok d →
      ReadsBack (getN (sigmaParseData t) items.length) items d
  | [], _, _, _, h => by cases h; exact ReadsBack.getN_zero _
  | v :: vs, _, _, ht, h => by
    obtain ⟨dv, hdv, h⟩ := except_bind_eq_ok.mp h
    obtain ⟨dvs, hdvs, h⟩ := except_bind_eq_ok.mp h
    cases h
    exact (readsBack_sigmaParseData v (allHaveType_cons.mp ht).1 hdv).getN_succ
      (readsBack_getN_sigmaParseData vs (allHaveType_cons.mp ht).2 hdvs)
theorem readsBack_sigmaParseDataList : ∀ (items : List Value) {ts : List SType} {d : List UInt8},
    haveTypes items ts = true → sigmaSerializeDataList items = .ok d →
      ReadsBack (sigmaParseDataList ts) items d
  | [], [], _, _, h => by cases h; exact ReadsBack.pure _
  | v :: vs, t :: ts, _, ht, h => by
    obtain ⟨dv, hdv, h⟩ := except_bind_eq_ok.mp h
    obtain ⟨dvs, hdvs, h⟩ := except_bind_eq_ok.mp h
    cases h
    exact (readsBack_sigmaParseData v (haveTypes_cons.mp ht).1 hdv).bind
      ((readsBack_sigmaParseDataList vs (haveTypes_cons.mp ht).2 hdvs).map _)
  | [], _ :: _, _, ht, _ | _ :: _, [], _, ht, _ => by cases ht
end

theorem allHaveType_of_forall : ∀ {items : List Value} {t : SType},
    (∀ v ∈ items, v.hasType t = true) → allHaveType items t = true
  | [], _, _ => rfl
  | v :: _, _, h => allHaveType_cons.mpr ⟨h v (List.mem_cons_self _ _),
      allHaveType_of_forall fun v' hv' => h v' (List.mem_cons_of_mem _ hv')⟩

theorem sigmaSerializeDataList_of_forall : ∀ {items : List Value},
    (∀ v ∈ items, ∃ d, v.sigmaSerializeData = .ok d) → ∃ d, sigmaSerializeDataList items = .ok d
  | [], _ => ⟨[], rfl⟩
  | v :: _, h => by
    obtain ⟨dv, hdv⟩ := h v (List.mem_cons_self _ _)
    obtain ⟨ds, hds⟩ := sigmaSerializeDataList_of_forall fun v' hv' => h v' (List.mem_cons_of_mem _ hv')
    exact ⟨dv ++ ds, by simp only [sigmaSerializeDataList, hdv, hds]; rfl⟩

/-- What a payload reader returns: a value of the type, which can be written again. -/
def ParsedAs (t : SType) (v : Value) : Prop :=
  v.hasType t = true ∧ ∃ d, v.sigmaSerializeData = .ok d

theorem parsedAs_coll {t : SType} {items : List Value} (hlen : items.length < 2 ^ 64)
    (h : ∀ v ∈ items, ParsedAs t v) : ParsedAs (.sColl t) (coll t items) := by
  obtain ⟨d, hd⟩ := sigmaSerializeDataList_of_forall fun v hv => (h v hv).2
  refine ⟨?_, _, by simp only [sigmaSerializeData, putUsize_of_lt hlen, hd]; rfl⟩
  exact Bool.and_eq_true_iff.mpr ⟨beq_self_eq_true t, allHaveType_of_forall fun v hv => (h v hv).1⟩

mutual
/-- Whatever the bytes, a payload read by a type is a value of that type, which can be written
again. -/
theorem sound_sigmaParseData : ∀ t : SType, Sound (ParsedAs t) (sigmaParseData t)
  | .sBoolean => Sound.bind Sound.getU8 fun _ _ => Sound.pure ⟨rfl, _, rfl⟩
  | .sByte => Sound.bind Sound.getI8 fun _ _ => Sound.pure ⟨rfl, _, rfl⟩
  | .sShort => Sound.bind (Sound.getSigned 16) fun _ _ => Sound.pure ⟨rfl, _, rfl⟩
  | .sInt => Sound.bind (Sound.getSigned 32) fun _ _ => Sound.pure ⟨rfl, _, rfl⟩
  | .sLong => Sound.bind (Sound.getSigned 64) fun _ _ => Sound.pure ⟨rfl, _, rfl⟩
  | .sBigInt => Sound.bind Sound.getUVlq fun _ _ =>
      Sound.bind (Sound.getN Sound.getU8 _) fun _ _ => Sound.pure ⟨rfl, _, rfl⟩
  | .sColl t => Sound.bind Sound.getUVlq fun n hn =>
      Sound.bind (Sound.getN (sound_sigmaParseData t) n) fun _ h =>
        Sound.pure (parsedAs_coll (h.1 ▸ hn) h.2)
  | .sOption t => Sound.bind Sound.getU8 fun _ _ => by
      split
      · exact Sound.pure ⟨rfl, _, rfl⟩
      · exact Sound.bind (sound_sigmaParseData t) fun _ ⟨hv, _, hd⟩ =>
          Sound.pure ⟨hv, _, by simp only [sigmaSerializeData, hd]; rfl⟩
  | .sTuple ts => Sound.bind (sound_sigmaParseDataList ts) fun _ h => Sound.pure h
  | .sAny => Sound.throw _
theorem sound_sigmaParseDataList : ∀ ts : List SType,
    Sound (fun vs => haveTypes vs ts = true ∧ ∃ d, sigmaSerializeDataList vs = .ok d)
      (sigmaParseDataList ts)
  | [] => Sound.pure ⟨rfl, [], rfl⟩
  | t :: ts => Sound.bind (sound_sigmaParseData t) fun _ ⟨hv, _, hdv⟩ =>
      Sound.bind (sound_sigmaParseDataList ts) fun _ ⟨hvs, _, hdvs⟩ =>
        Sound.pure ⟨haveTypes_cons.mpr ⟨hv, hvs⟩, _,
          by simp only [sigmaSerializeDataList, hdv, hdvs]; rfl⟩
end

end Value

/-! ## Constants -/

namespace Constant

/-- Modelled from the spec: `Constant::sigma_serialize`, the type and the value's payload. -/
def sigmaSerialize (c : Constant) : Except IoError (List UInt8) := do
  let t ← c.tpe.sigmaSerialize
  let d ← c.v.sigmaSerializeData
  return t ++ d

/-- Modelled from the spec: `Constant::sigma_parse`, a type, then a payload of that type. -/
def sigmaParse : ByteReader Constant := do
  let tpe ← SType.sigmaParse
  let v ← Value.sigmaParseData tpe
  return ⟨tpe, v⟩

/-- A constant is written from its type's tag, up to `LAST_CONSTANT_CODE`. -/
theorem sigmaSerialize_eq_cons {c : Constant} {b : List UInt8} (h : c.sigmaSerialize = .ok b) :
    ∃ code r, b = code :: r ∧ code ≤ 112 := by
  obtain ⟨bt, ht, h⟩ := except_bind_eq_ok.mp h
  obtain ⟨d, -, h⟩ := except_bind_eq_ok.mp h
  cases h
  obtain ⟨code, r, rfl, hcode⟩ := SType.sigmaSerialize_eq_cons ht
  exact ⟨code, r ++ d, rfl, hcode⟩

/-- A constant whose value has its declared type is read back from what it writes, whatever
follows it. -/
theorem readsBack_sigmaParse {c : Constant} (hc : c.v.hasType c.tpe = true) {b : List UInt8}
    (h : c.sigmaSerialize = .ok b) : ReadsBack sigmaParse c b := by
  obtain ⟨bt, ht, h⟩ := except_bind_eq_ok.mp h
  obtain ⟨d, hd, h⟩ := except_bind_eq_ok.mp h
  cases h
  exact (SType.readsBack_sigmaParse ht).bind ((Value.readsBack_sigmaParseData c.v hc hd).map _)

/-- What `Constant::sigma_parse` returns: a constant whose value has its declared type, which can
be written again. -/
def WellFormed (c : Constant) : Prop :=
  c.v.hasType c.tpe = true ∧ ∃ b, c.sigmaSerialize = .ok b

/-- Whatever the bytes, a constant the reader returns is well formed. -/
theorem sound_sigmaParse : Sound WellFormed sigmaParse :=
  Sound.bind SType.sound_sigmaParse fun _ ⟨_, ht⟩ =>
    Sound.bind (Value.sound_sigmaParseData _) fun _ ⟨hv, _, hd⟩ =>
      Sound.pure ⟨hv, _, by simp only [sigmaSerialize, ht, hd]; rfl⟩

end Constant

/-- Modelled from the spec: `ConstantStore`, the constant table a reader holds ("a `Const` node
may be encoded inline or as a reference to the table"). Its entries were read by
`Constant::sigma_parse`, so each is well formed. -/
structure ConstantStore where
  constants : List Constant
  wellFormed : ∀ c ∈ constants, c.WellFormed

namespace ConstantStore

/-- `ConstantStore::empty`. -/
def empty : ConstantStore := ⟨[], fun _ h => nomatch h⟩

/-- `ConstantStore::get`. -/
def get (store : ConstantStore) (id : Nat) : Option Constant := store.constants[id]?

/-- Modelled from the spec: the index of a constant the table holds, which a writer with the
table writes in the constant's place. -/
def find? (store : ConstantStore) (c : Constant) : Option Nat := store.constants.indexOf? c

theorem wellFormed_of_get {store : ConstantStore} {id : Nat} {c : Constant}
    (h : store.get id = some c) : c.WellFormed :=
  store.wellFormed c (List.getElem?_mem h)

/-- A reader whose table extends the writer's reads each index the writer wrote as the constant
it stands for. -/
theorem get_of_find? {w r : ConstantStore} (hwr : w.constants <+: r.constants) {c : Constant}
    {id : Nat} (h : w.find? c = some id) : r.get id = some c := by
  obtain ⟨hid, hc, -⟩ := List.findIdx?_eq_some_iff_getElem.mp h
  rw [get, List.getElem?_eq_getElem (lt_of_lt_of_le hid hwr.length_le), ← hwr.getElem hid]
  exact congrArg some (beq_iff_eq.mp hc)

end ConstantStore

end SigmaRust
