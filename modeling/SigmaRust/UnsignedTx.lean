import SigmaRust.Value
import SigmaRust.Result

/-! `UnsignedTransaction` of `unsigned.rs`: a transaction whose inputs carry no proofs, with its id
cached at construction. The id is `blake2b256` of the bytes to sign, the serialization of the
proof-erased `Transaction` built from the current fields. `Transaction::new`, its
`bytes_to_sign`, `blake2b256_hash`, the `Display` of `TransactionError` and the upper bound of
`TxIoVec` are declared elsewhere in the repository; they are the parameters of the model
(`TxDeps` and `nMax`), and no property of a hash is assumed.

A call of the code returns `Ok`, an `Err`, or panics (`Stop.panic`): `to_tx_wo_proofs` unwraps
the `Result` of `Transaction::new`. -/

namespace SigmaRust

/-- `BoundedVec<T, L, U>` of the `bounded-vec` crate: a vector whose length lies in `L..=U`. -/
@[ext]
structure BoundedVec (α : Type) (L U : Nat) where
  inner : List α
  lower : L ≤ inner.length
  upper : inner.length ≤ U

/-- `BoundedVecOutOfBounds`. -/
inductive BoundedVecOutOfBounds where
  | lowerBoundError (lowerBound got : Nat)
  | upperBoundError (upperBound got : Nat)

namespace BoundedVec

variable {α β : Type} {L U : Nat}

/-- `BoundedVec::from_vec`, also `TryFrom<Vec<T>>`. -/
def fromVec (items : List α) : Except BoundedVecOutOfBounds (BoundedVec α L U) :=
  if h₁ : items.length < L then .error (.lowerBoundError L items.length)
  else if h₂ : U < items.length then .error (.upperBoundError U items.length)
  else .ok ⟨items, Nat.le_of_not_lt h₁, Nat.le_of_not_lt h₂⟩

/-- `BoundedVec::opt_empty_vec`: an empty vector is `None`. -/
def optEmptyVec (v : List α) : Except BoundedVecOutOfBounds (Option (BoundedVec α L U)) :=
  if v.isEmpty then .ok none else (fromVec v).map some

/-- `BoundedVec::as_vec`. -/
def asVec (v : BoundedVec α L U) : List α := v.inner

/-- `BoundedVec::mapped_ref`. -/
def mappedRef (v : BoundedVec α L U) (f : α → β) : BoundedVec β L U :=
  ⟨v.inner.map f, by simpa using v.lower, by simpa using v.upper⟩

theorem fromVec_eq_ok {items : List α} {v : BoundedVec α L U} (h : fromVec items = .ok v) :
    v.asVec = items := by
  unfold fromVec at h
  split_ifs at h
  cases h
  rfl

@[simp]
theorem fromVec_asVec (v : BoundedVec α L U) : fromVec v.asVec = .ok v := by
  have := v.lower
  have := v.upper
  rw [fromVec, dif_neg (by simpa [asVec] using Nat.not_lt.mpr v.lower),
    dif_neg (by simpa [asVec] using Nat.not_lt.mpr v.upper)]
  rfl

theorem asVec_ne_nil (v : BoundedVec α 1 U) : v.asVec ≠ [] :=
  List.ne_nil_of_length_pos v.lower

/-- A vector of at least one element is read back by `opt_empty_vec` from what it writes. -/
@[simp]
theorem optEmptyVec_asVec (d : Option (BoundedVec α 1 U)) :
    optEmptyVec ((d.map asVec).getD []) = .ok d := by
  cases d with
  | none => rfl
  | some v => simp [optEmptyVec, List.isEmpty_iff, asVec_ne_nil, Except.map]

/-- What `From` writes for the data inputs is empty exactly for `None`. -/
theorem getD_asVec_eq_nil (d : Option (BoundedVec α 1 U)) : (d.map asVec).getD [] = [] ↔ d = none := by
  cases d <;> simp [asVec_ne_nil]

/-- What `opt_empty_vec` returns holds the given vector, an empty one as `None`. -/
theorem optEmptyVec_map_asVec {items : List α} {d : Option (BoundedVec α L U)}
    (h : optEmptyVec items = .ok d) : d.map asVec = if items.isEmpty then none else some items := by
  unfold optEmptyVec at h
  split at h
  · cases h
    simp_all
  · cases hv : fromVec (L := L) (U := U) items with
    | error e => rw [hv] at h; cases h
    | ok v => rw [hv] at h; cases h; simp_all [fromVec_eq_ok hv]

theorem optEmptyVec_eq_ok {items : List α} {d : Option (BoundedVec α L U)}
    (h : optEmptyVec items = .ok d) : (d.map asVec).getD [] = items := by
  rw [optEmptyVec_map_asVec h]
  cases items <;> rfl

theorem fromVec_of_bounds {items : List α} (h₁ : L ≤ items.length) (h₂ : items.length ≤ U) :
    fromVec items = .ok (⟨items, h₁, h₂⟩ : BoundedVec α L U) := by
  rw [fromVec, dif_neg (Nat.not_lt.mpr h₁), dif_neg (Nat.not_lt.mpr h₂)]

theorem fromVec_of_not_bounds {items : List α} (h : ¬ (L ≤ items.length ∧ items.length ≤ U)) :
    ∃ e, (fromVec items : Except _ (BoundedVec α L U)) = .error e := by
  unfold fromVec
  split_ifs with h₁ h₂
  · exact ⟨_, rfl⟩
  · exact ⟨_, rfl⟩
  · omega

theorem optEmptyVec_of_le {items : List α} (h : items.length ≤ U) :
    ∃ d, (optEmptyVec items : Except _ (Option (BoundedVec α 1 U))) = .ok d := by
  unfold optEmptyVec
  split
  · exact ⟨_, rfl⟩
  · rename_i hne
    rw [fromVec_of_bounds (List.length_pos.mpr (by simpa using hne)) h]
    exact ⟨_, rfl⟩

theorem optEmptyVec_of_lt {items : List α} (h : U < items.length) :
    ∃ e, (optEmptyVec items : Except _ (Option (BoundedVec α 1 U))) = .error e := by
  have hne : items.isEmpty = false := by cases items <;> simp_all
  obtain ⟨e, he⟩ := fromVec_of_not_bounds (L := 1) (U := U) (show ¬ (1 ≤ items.length ∧ items.length ≤ U) by omega)
  exact ⟨e, by rw [optEmptyVec, hne, he]; rfl⟩

end BoundedVec

/-- `TxIoVec<T>`: at least one and at most `nMax` items. -/
abbrev TxIoVec (nMax : Nat) (α : Type) := BoundedVec α 1 nMax

/-- `Digest32`: 32 bytes. -/
structure Digest32 where
  bytes : List UInt8
  length_eq : bytes.length = 32

/-- `Digest32::zero`. -/
def Digest32.zero : Digest32 := ⟨List.replicate 32 0, List.length_replicate 32 0⟩

/-- `TxId`. -/
structure TxId where
  digest : Digest32

/-- `TxId::zero`. -/
def TxId.zero : TxId := ⟨Digest32.zero⟩

/-- `BoxId`. -/
structure BoxId where
  digest : Digest32

/-- `ContextExtension`: the context variables an input supplies, by id. -/
structure ContextExtension where
  values : List (UInt8 × Constant)

/-- `UnsignedInput`. -/
structure UnsignedInput where
  boxId : BoxId
  extension : ContextExtension

/-- `DataInput`. -/
structure DataInput where
  boxId : BoxId

/-- `ErgoBoxCandidate`, with the fields its serialization starts with. -/
structure ErgoBoxCandidate where
  value : UInt64
  ergoTree : List UInt8
  creationHeight : UInt32

/-- `ProofBytes`. -/
inductive ProofBytes where
  | empty
  | some (bytes : List UInt8)

/-- `ProverResult`. -/
structure ProverResult where
  proof : ProofBytes
  extension : ContextExtension

/-- `Input`: an input with its spending proof. -/
structure Input where
  boxId : BoxId
  spendingProof : ProverResult

/-- `SigmaSerializationError`, kept as its message: this file only passes it on. -/
structure SigmaSerializationError where
  msg : String

/-- Modelled from the spec: `TransactionError` (declared outside `unsigned.rs`) has "distinct
variants for each bound violation", and the variant `?` converts a `SigmaSerializationError` to. -/
inductive TransactionError where
  | invalidInputsCount (e : BoundedVecOutOfBounds)
  | invalidDataInputsCount (e : BoundedVecOutOfBounds)
  | invalidOutputCandidatesCount (e : BoundedVecOutOfBounds)
  | sigmaSerializationError (e : SigmaSerializationError)

/-- `Transaction`: the signed transaction, with proofs. -/
structure Transaction (nMax : Nat) where
  txId : TxId
  inputs : TxIoVec nMax Input
  dataInputs : Option (TxIoVec nMax DataInput)
  outputCandidates : TxIoVec nMax ErgoBoxCandidate

/-- What `unsigned.rs` calls that is declared elsewhere in the repository. -/
structure TxDeps (nMax : Nat) where
  transactionNew : TxIoVec nMax Input → Option (TxIoVec nMax DataInput) →
    TxIoVec nMax ErgoBoxCandidate → Except SigmaSerializationError (Transaction nMax)
  transactionBytesToSign : Transaction nMax → Except SigmaSerializationError (List UInt8)
  blake2b256Hash : List UInt8 → Digest32
  displayTransactionError : TransactionError → String

/-- `UnsignedTransaction`. Only `tx_id` is private; the other fields are `pub`. -/
structure UnsignedTransaction (nMax : Nat) where
  txId : TxId
  inputs : TxIoVec nMax UnsignedInput
  dataInputs : Option (TxIoVec nMax DataInput)
  outputCandidates : TxIoVec nMax ErgoBoxCandidate

/-- `UnsignedTransactionJson` (declared in the `json` module): the three vectors. -/
structure UnsignedTransactionJson where
  inputs : List UnsignedInput
  dataInputs : List DataInput
  outputs : List ErgoBoxCandidate

namespace UnsignedTransaction

variable {nMax : Nat} (deps : TxDeps nMax)

/-- `to_tx_wo_proofs`: the transaction with empty proofs; an `Err` of `Transaction::new`
reaches `unwrap`. -/
def toTxWoProofs (t : UnsignedTransaction nMax) : Except (Stop SigmaSerializationError) (Transaction nMax) :=
  let emptyProofsInput := t.inputs.mappedRef fun ui => ⟨ui.boxId, ⟨.empty, ui.extension⟩⟩
  unwrap (deps.transactionNew emptyProofsInput t.dataInputs t.outputCandidates)

/-- `bytes_to_sign`. -/
def bytesToSign (t : UnsignedTransaction nMax) : Except (Stop SigmaSerializationError) (List UInt8) := do
  let tx ← toTxWoProofs deps t
  liftErr id (deps.transactionBytesToSign tx)

/-- `calc_tx_id`. -/
def calcTxId (t : UnsignedTransaction nMax) : Except (Stop SigmaSerializationError) TxId := do
  let bytes ← bytesToSign deps t
  return ⟨deps.blake2b256Hash bytes⟩

/-- `UnsignedTransaction::new`. -/
def new (inputs : TxIoVec nMax UnsignedInput) (dataInputs : Option (TxIoVec nMax DataInput))
    (outputCandidates : TxIoVec nMax ErgoBoxCandidate) :
    Except (Stop SigmaSerializationError) (UnsignedTransaction nMax) := do
  let txToSign : UnsignedTransaction nMax := ⟨TxId.zero, inputs, dataInputs, outputCandidates⟩
  let txId ← calcTxId deps txToSign
  return { txToSign with txId }

/-- `UnsignedTransaction::new_from_vec`. -/
def newFromVec (inputs : List UnsignedInput) (dataInputs : List DataInput)
    (outputCandidates : List ErgoBoxCandidate) :
    Except (Stop TransactionError) (UnsignedTransaction nMax) := do
  let inputs ← liftErr .invalidInputsCount (BoundedVec.fromVec inputs)
  let dataInputs ← liftErr .invalidDataInputsCount (BoundedVec.optEmptyVec dataInputs)
  let outputCandidates ← liftErr .invalidOutputCandidatesCount (BoundedVec.fromVec outputCandidates)
  mapStop .sigmaSerializationError (new deps inputs dataInputs outputCandidates)

/-- `id`. -/
def id (t : UnsignedTransaction nMax) : TxId := t.txId

/-- `TryFrom<UnsignedTransactionJson> for UnsignedTransaction`. -/
def tryFrom (txJson : UnsignedTransactionJson) : Except (Stop String) (UnsignedTransaction nMax) :=
  mapStop (fun e => let msg := deps.displayTransactionError e
      s!"TryFrom<UnsignedTransactionJson> error: {msg}")
    (newFromVec deps txJson.inputs txJson.dataInputs txJson.outputs)

/-- `t.inputs = inputs`: a write to a public field. -/
def setInputs (t : UnsignedTransaction nMax) (inputs : TxIoVec nMax UnsignedInput) :
    UnsignedTransaction nMax := { t with inputs }

/-- `t.data_inputs = data_inputs`. -/
def setDataInputs (t : UnsignedTransaction nMax) (dataInputs : Option (TxIoVec nMax DataInput)) :
    UnsignedTransaction nMax := { t with dataInputs }

/-- `t.output_candidates = output_candidates`. -/
def setOutputCandidates (t : UnsignedTransaction nMax)
    (outputCandidates : TxIoVec nMax ErgoBoxCandidate) : UnsignedTransaction nMax :=
  { t with outputCandidates }

end UnsignedTransaction

/-- `From<UnsignedTransaction> for UnsignedTransactionJson`. -/
def UnsignedTransactionJson.ofUnsignedTransaction {nMax : Nat} (v : UnsignedTransaction nMax) :
    UnsignedTransactionJson :=
  ⟨v.inputs.asVec, (v.dataInputs.map BoundedVec.asVec).getD [], v.outputCandidates.asVec⟩

namespace UnsignedTransaction

variable {nMax : Nat} (deps : TxDeps nMax)

/-- The cached id agrees with a fresh recomputation from the current fields. -/
def IdAgrees (t : UnsignedTransaction nMax) : Prop := calcTxId deps t = .ok t.id

theorem new_eq_ok {i : TxIoVec nMax UnsignedInput} {d : Option (TxIoVec nMax DataInput)}
    {o : TxIoVec nMax ErgoBoxCandidate} {t : UnsignedTransaction nMax} :
    new deps i d o = .ok t ↔ ∃ txId, calcTxId deps ⟨TxId.zero, i, d, o⟩ = .ok txId ∧ t = ⟨txId, i, d, o⟩ := by
  simp only [new, except_bind_eq_ok, pure, Except.pure, Except.ok.injEq]
  exact exists_congr fun _ => and_congr_right fun _ => eq_comm

/-- `new` returns a value whose id agrees: `calc_tx_id` does not read the cached id. -/
theorem new_idAgrees {i : TxIoVec nMax UnsignedInput} {d : Option (TxIoVec nMax DataInput)}
    {o : TxIoVec nMax ErgoBoxCandidate} {t : UnsignedTransaction nMax} (h : new deps i d o = .ok t) :
    IdAgrees deps t := by
  obtain ⟨txId, hc, rfl⟩ := (new_eq_ok deps).mp h
  exact hc

/-- `new` reaches the `unwrap` of `to_tx_wo_proofs` through `calc_tx_id` and `bytes_to_sign`
before anything is serialized: it panics exactly when `Transaction::new` fails on the
proof-erased fields, returns `Err` exactly when the transaction it built fails to serialize, and
what it returns has bytes to sign, whose hash is its id. -/
theorem new_panics_where_transaction_new_fails (i : TxIoVec nMax UnsignedInput)
    (d : Option (TxIoVec nMax DataInput)) (o : TxIoVec nMax ErgoBoxCandidate) :
    ((∃ msg, new deps i d o = .error (.panic msg)) ↔
      ∃ e, deps.transactionNew (i.mappedRef fun ui => ⟨ui.boxId, ⟨.empty, ui.extension⟩⟩) d o =
        .error e) ∧
    (∀ e, new deps i d o = .error (.err e) ↔
      ∃ tx, deps.transactionNew (i.mappedRef fun ui => ⟨ui.boxId, ⟨.empty, ui.extension⟩⟩) d o =
        .ok tx ∧ deps.transactionBytesToSign tx = .error e) ∧
    (∀ t, new deps i d o = .ok t →
      ∃ bytes, bytesToSign deps t = .ok bytes ∧ t.id = ⟨deps.blake2b256Hash bytes⟩) := by
  cases h₁ : deps.transactionNew (i.mappedRef fun ui => ⟨ui.boxId, ⟨.empty, ui.extension⟩⟩) d o with
  | error e => simp [new, calcTxId, bytesToSign, toTxWoProofs, h₁, unwrap, bind, Except.bind]
  | ok tx =>
    cases h₂ : deps.transactionBytesToSign tx <;>
      simp [new, calcTxId, bytesToSign, toTxWoProofs, h₁, h₂, unwrap, liftErr, Except.mapError,
        bind, Except.bind, pure, Except.pure, id]

/-- A stand-in for the collaborators whose `Transaction::new` returns `Err`, as its signature
allows: the serializer fails on every transaction. -/
def failingBuild (nMax : Nat) : TxDeps nMax where
  transactionNew _ _ _ := .error ⟨"serialization failed"⟩
  transactionBytesToSign _ := .ok []
  blake2b256Hash _ := Digest32.zero
  displayTransactionError _ := ""

/-- Where `Transaction::new` fails, `new` panics on one input and one output candidate. -/
theorem new_panics_on_failed_build :
    ∃ msg, new (failingBuild 1) ⟨[⟨⟨Digest32.zero⟩, ⟨[]⟩⟩], le_rfl, le_rfl⟩ none
      ⟨[⟨0, [], 0⟩], le_rfl, le_rfl⟩ = .error (.panic msg) :=
  (new_panics_where_transaction_new_fails _ _ _ _).1.mpr ⟨_, rfl⟩

theorem newFromVec_eq_ok {i : List UnsignedInput} {d : List DataInput} {o : List ErgoBoxCandidate}
    {t : UnsignedTransaction nMax} (h : newFromVec deps i d o = .ok t) :
    ∃ vi vd vo, BoundedVec.fromVec i = .ok vi ∧ BoundedVec.optEmptyVec d = .ok vd ∧
      BoundedVec.fromVec o = .ok vo ∧ new deps vi vd vo = .ok t := by
  simp only [newFromVec, except_bind_eq_ok, liftErr_eq_ok, mapStop_eq_ok] at h
  obtain ⟨vi, hi, vd, hd, vo, ho, hn⟩ := h
  exact ⟨vi, vd, vo, hi, hd, ho, hn⟩

/-- `new_from_vec` on the vectors of bounded vectors is `new` on them. -/
theorem newFromVec_asVec (vi : TxIoVec nMax UnsignedInput) (vd : Option (TxIoVec nMax DataInput))
    (vo : TxIoVec nMax ErgoBoxCandidate) :
    newFromVec deps vi.asVec ((vd.map BoundedVec.asVec).getD []) vo.asVec =
      mapStop .sigmaSerializationError (new deps vi vd vo) := by
  rw [newFromVec, BoundedVec.fromVec_asVec, BoundedVec.optEmptyVec_asVec, BoundedVec.fromVec_asVec]
  rfl

/-- `new_from_vec` checks the inputs, then the data inputs, then the output candidates against
their bounds, and past the three checks is `new` on the given vectors. -/
theorem newFromVec_cases (i : List UnsignedInput) (d : List DataInput) (o : List ErgoBoxCandidate) :
    (¬ (1 ≤ i.length ∧ i.length ≤ nMax) ∧
      ∃ e, newFromVec deps i d o = .error (.err (.invalidInputsCount e))) ∨
    ((1 ≤ i.length ∧ i.length ≤ nMax) ∧ nMax < d.length ∧
      ∃ e, newFromVec deps i d o = .error (.err (.invalidDataInputsCount e))) ∨
    ((1 ≤ i.length ∧ i.length ≤ nMax) ∧ d.length ≤ nMax ∧ ¬ (1 ≤ o.length ∧ o.length ≤ nMax) ∧
      ∃ e, newFromVec deps i d o = .error (.err (.invalidOutputCandidatesCount e))) ∨
    ((1 ≤ i.length ∧ i.length ≤ nMax) ∧ d.length ≤ nMax ∧ (1 ≤ o.length ∧ o.length ≤ nMax) ∧
      ∃ vi vd vo, vi.asVec = i ∧ vd.map BoundedVec.asVec = (if d.isEmpty then none else some d) ∧
        vo.asVec = o ∧ newFromVec deps i d o = mapStop .sigmaSerializationError (new deps vi vd vo)) := by
  by_cases hi : 1 ≤ i.length ∧ i.length ≤ nMax
  swap
  · obtain ⟨e, he⟩ := BoundedVec.fromVec_of_not_bounds hi
    exact .inl ⟨hi, e, by rw [newFromVec, he]; rfl⟩
  have hvi := BoundedVec.fromVec_of_bounds (U := nMax) hi.1 hi.2
  by_cases hd : d.length ≤ nMax
  swap
  · obtain ⟨e, he⟩ := BoundedVec.optEmptyVec_of_lt (U := nMax) (Nat.lt_of_not_le hd)
    exact .inr (.inl ⟨hi, Nat.lt_of_not_le hd, e, by rw [newFromVec, hvi, he]; rfl⟩)
  obtain ⟨vd, hvd⟩ := BoundedVec.optEmptyVec_of_le (U := nMax) hd
  by_cases ho : 1 ≤ o.length ∧ o.length ≤ nMax
  swap
  · obtain ⟨e, he⟩ := BoundedVec.fromVec_of_not_bounds (U := nMax) ho
    exact .inr (.inr (.inl ⟨hi, hd, ho, e, by rw [newFromVec, hvi, hvd, he]; rfl⟩))
  have hvo := BoundedVec.fromVec_of_bounds (U := nMax) ho.1 ho.2
  refine .inr (.inr (.inr ⟨hi, hd, ho, ⟨i, hi.1, hi.2⟩, vd, ⟨o, ho.1, ho.2⟩, rfl,
    BoundedVec.optEmptyVec_map_asVec hvd, rfl, ?_⟩))
  rw [newFromVec, hvi, hvd, hvo]
  rfl

/-- `new_from_vec` reports the first count out of bounds, in the order inputs, data inputs,
output candidates, and past the three checks returns what `new` returns; what it builds holds the
given vectors in their order, an empty data-input vector as `None`. -/
theorem newFromVec_checks_in_order (i : List UnsignedInput) (d : List DataInput)
    (o : List ErgoBoxCandidate) :
    ((∃ e, newFromVec deps i d o = .error (.err (.invalidInputsCount e))) ↔
      i.length < 1 ∨ nMax < i.length) ∧
    (1 ≤ i.length ∧ i.length ≤ nMax →
      ((∃ e, newFromVec deps i d o = .error (.err (.invalidDataInputsCount e))) ↔ nMax < d.length)) ∧
    (1 ≤ i.length ∧ i.length ≤ nMax → d.length ≤ nMax →
      ((∃ e, newFromVec deps i d o = .error (.err (.invalidOutputCandidatesCount e))) ↔
        o.length < 1 ∨ nMax < o.length)) ∧
    (1 ≤ i.length ∧ i.length ≤ nMax → d.length ≤ nMax → 1 ≤ o.length ∧ o.length ≤ nMax →
      ∃ vi vd vo, vi.asVec = i ∧ vd.map BoundedVec.asVec = (if d.isEmpty then none else some d) ∧
        vo.asVec = o ∧ newFromVec deps i d o = mapStop .sigmaSerializationError (new deps vi vd vo)) ∧
    (∀ t, newFromVec deps i d o = .ok t →
      t.inputs.asVec = i ∧ t.outputCandidates.asVec = o ∧
        t.dataInputs.map BoundedVec.asVec = (if d.isEmpty then none else some d)) := by
  rcases newFromVec_cases deps i d o with ⟨hi, e, h⟩ | ⟨hi, hd, e, h⟩ | ⟨hi, hd, ho, e, h⟩ |
    ⟨hi, hd, ho, vi, vd, vo, hvi, hvd, hvo, h⟩ <;> rw [h]
  · exact ⟨iff_of_true ⟨e, rfl⟩ (by omega), fun h => absurd h hi, fun h => absurd h hi,
      fun h => absurd h hi, fun _ h => nomatch h⟩
  · exact ⟨iff_of_false (fun ⟨_, h⟩ => nomatch h) (by omega), fun _ => iff_of_true ⟨e, rfl⟩ hd,
      fun _ h => absurd h (by omega), fun _ h => absurd h (by omega), fun _ h => nomatch h⟩
  · exact ⟨iff_of_false (fun ⟨_, h⟩ => nomatch h) (by omega),
      fun _ => iff_of_false (fun ⟨_, h⟩ => nomatch h) (by omega),
      fun _ _ => iff_of_true ⟨e, rfl⟩ (by omega), fun _ _ h => absurd h ho, fun _ h => nomatch h⟩
  · have hnew : ∀ e, mapStop TransactionError.sigmaSerializationError (new deps vi vd vo) =
        .error (.err e) → ∃ e', e = .sigmaSerializationError e' := fun _ h =>
      let ⟨e', _, he'⟩ := mapStop_eq_err.mp h
      ⟨e', he'.symm⟩
    refine ⟨iff_of_false (fun ⟨_, h⟩ => ?_) (by omega),
      fun _ => iff_of_false (fun ⟨_, h⟩ => ?_) (by omega),
      fun _ _ => iff_of_false (fun ⟨_, h⟩ => ?_) (by omega),
      fun _ _ _ => ⟨vi, vd, vo, hvi, hvd, hvo, rfl⟩, fun t ht => ?_⟩
    iterate 3 obtain ⟨_, ⟨⟩⟩ := hnew _ h
    obtain ⟨txId, -, rfl⟩ := (new_eq_ok deps).mp (mapStop_eq_ok.mp ht)
    exact ⟨hvi, hvo, hvd⟩

theorem newFromVec_idAgrees {i : List UnsignedInput} {d : List DataInput} {o : List ErgoBoxCandidate}
    {t : UnsignedTransaction nMax} (h : newFromVec deps i d o = .ok t) : IdAgrees deps t :=
  let ⟨_, _, _, _, _, _, hn⟩ := newFromVec_eq_ok deps h
  new_idAgrees deps hn

theorem tryFrom_idAgrees {j : UnsignedTransactionJson} {t : UnsignedTransaction nMax}
    (h : tryFrom deps j = .ok t) : IdAgrees deps t :=
  newFromVec_idAgrees deps (mapStop_eq_ok.mp h)

/-- After a write that keeps the cached id, the id agrees exactly when the recomputation from the
new fields gives what the recomputation from the old fields gave. -/
theorem idAgrees_iff_of_id_eq {t t' : UnsignedTransaction nMax} (ht : IdAgrees deps t)
    (hid : t'.id = t.id) : IdAgrees deps t' ↔ calcTxId deps t' = calcTxId deps t := by
  rw [IdAgrees, hid, ht]

/-- A write to a public field keeps the id cached by `new`, which then agrees only where the
recomputation from the written fields gives the id of the fields `new` was given. -/
theorem field_write_keeps_stale_id {i₀ : TxIoVec nMax UnsignedInput}
    {d₀ : Option (TxIoVec nMax DataInput)} {o₀ : TxIoVec nMax ErgoBoxCandidate}
    {t : UnsignedTransaction nMax} (ht : new deps i₀ d₀ o₀ = .ok t)
    (i : TxIoVec nMax UnsignedInput) (d : Option (TxIoVec nMax DataInput))
    (o : TxIoVec nMax ErgoBoxCandidate) :
    (IdAgrees deps (t.setInputs i) ↔ calcTxId deps (t.setInputs i) = calcTxId deps t) ∧
    (IdAgrees deps (t.setDataInputs d) ↔ calcTxId deps (t.setDataInputs d) = calcTxId deps t) ∧
    (IdAgrees deps (t.setOutputCandidates o) ↔
      calcTxId deps (t.setOutputCandidates o) = calcTxId deps t) :=
  have h := new_idAgrees deps ht
  ⟨idAgrees_iff_of_id_eq deps h rfl, idAgrees_iff_of_id_eq deps h rfl,
    idAgrees_iff_of_id_eq deps h rfl⟩

/-- A stand-in for the collaborators: `Transaction::new` keeps the fields, the bytes to sign are
the input box ids, and the hash cuts or pads them to 32 bytes. -/
def byBoxIds (nMax : Nat) : TxDeps nMax where
  transactionNew inputs dataInputs outputCandidates :=
    .ok ⟨TxId.zero, inputs, dataInputs, outputCandidates⟩
  transactionBytesToSign tx := .ok (tx.inputs.inner.map fun i => i.boxId.digest.bytes).flatten
  blake2b256Hash bytes := ⟨(bytes ++ List.replicate 32 0).take 32, by simp⟩
  displayTransactionError _ := ""

/-- Writing the inputs of a transaction built from one input of box `0³²` with one of box `1³²`
leaves the id of box `0³²`. -/
theorem box_write_keeps_stale_id :
    new (byBoxIds 1) ⟨[⟨⟨Digest32.zero⟩, ⟨[]⟩⟩], le_rfl, le_rfl⟩ none
      ⟨[⟨0, [], 0⟩], le_rfl, le_rfl⟩ =
      .ok ⟨TxId.zero, ⟨[⟨⟨Digest32.zero⟩, ⟨[]⟩⟩], le_rfl, le_rfl⟩, none, ⟨[⟨0, [], 0⟩], le_rfl, le_rfl⟩⟩ ∧
    ¬ IdAgrees (byBoxIds 1)
      ((⟨TxId.zero, ⟨[⟨⟨Digest32.zero⟩, ⟨[]⟩⟩], le_rfl, le_rfl⟩, none, ⟨[⟨0, [], 0⟩], le_rfl, le_rfl⟩⟩ :
        UnsignedTransaction 1).setInputs ⟨[⟨⟨⟨List.replicate 32 1, rfl⟩⟩, ⟨[]⟩⟩], le_rfl, le_rfl⟩) := by
  have ht : new (byBoxIds 1) ⟨[⟨⟨Digest32.zero⟩, ⟨[]⟩⟩], le_rfl, le_rfl⟩ none
      ⟨[⟨0, [], 0⟩], le_rfl, le_rfl⟩ = .ok _ := rfl
  refine ⟨ht, fun h => ?_⟩
  have hcalc := (field_write_keeps_stale_id _ ht _ none ⟨[⟨0, [], 0⟩], le_rfl, le_rfl⟩).1.mp h
  have hbytes := congrArg (fun r : Except (Stop SigmaSerializationError) TxId =>
    match r with | .ok x => x.digest.bytes | .error _ => []) hcalc
  exact absurd hbytes (by decide)

/-- A transaction built by `new` is read back from its JSON: `try_from` rebuilds the bounded
vectors and calls `new` on the same fields. -/
theorem tryFrom_ofUnsignedTransaction {i : TxIoVec nMax UnsignedInput}
    {d : Option (TxIoVec nMax DataInput)} {o : TxIoVec nMax ErgoBoxCandidate}
    {t : UnsignedTransaction nMax} (hn : new deps i d o = .ok t) :
    tryFrom deps (UnsignedTransactionJson.ofUnsignedTransaction t) = .ok t := by
  obtain ⟨txId, -, rfl⟩ := (new_eq_ok deps).mp hn
  rw [tryFrom, UnsignedTransactionJson.ofUnsignedTransaction, newFromVec_asVec, hn]
  rfl

/-- JSON that `try_from` accepts is written back as it was. -/
theorem ofUnsignedTransaction_tryFrom {j : UnsignedTransactionJson} {t : UnsignedTransaction nMax}
    (h : tryFrom deps j = .ok t) :
    UnsignedTransactionJson.ofUnsignedTransaction t = j ∧ (t.dataInputs = none ↔ j.dataInputs = []) := by
  obtain ⟨vi, vd, vo, hi, hd, ho, hn⟩ := newFromVec_eq_ok deps (mapStop_eq_ok.mp h)
  obtain ⟨txId, -, rfl⟩ := (new_eq_ok deps).mp hn
  have hd' := BoundedVec.optEmptyVec_eq_ok hd
  refine ⟨?_, by rw [← hd', BoundedVec.getD_asVec_eq_nil]⟩
  rw [UnsignedTransactionJson.ofUnsignedTransaction, BoundedVec.fromVec_eq_ok hi,
    BoundedVec.fromVec_eq_ok ho, hd']

/-- The JSON conversions are inverse: a transaction built by `new` or `new_from_vec` is read back
from its JSON, and JSON that `try_from` accepts is written back as it was, an empty
`data_inputs` list through `None`. -/
theorem json_round_trip :
    (∀ t : UnsignedTransaction nMax,
      ((∃ i d o, new deps i d o = .ok t) ∨ (∃ i d o, newFromVec deps i d o = .ok t)) →
      tryFrom deps (UnsignedTransactionJson.ofUnsignedTransaction t) = .ok t) ∧
    (∀ (j : UnsignedTransactionJson) (t : UnsignedTransaction nMax), tryFrom deps j = .ok t →
      UnsignedTransactionJson.ofUnsignedTransaction t = j ∧ (t.dataInputs = none ↔ j.dataInputs = [])) := by
  refine ⟨fun t ht => ?_, fun _ _ h => ofUnsignedTransaction_tryFrom deps h⟩
  rcases ht with ⟨_, _, _, hn⟩ | ⟨_, _, _, h⟩
  · exact tryFrom_ofUnsignedTransaction deps hn
  · obtain ⟨_, _, _, -, -, -, hn⟩ := newFromVec_eq_ok deps h
    exact tryFrom_ofUnsignedTransaction deps hn

end UnsignedTransaction

end SigmaRust
