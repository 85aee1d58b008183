import SigmaRust.UnsignedTx

/-! The C bindings of `UnsignedTransaction` (`ergo-lib-c-core`, `transaction.rs`). A foreign caller
holds raw pointers to boxed transactions and reaches them only through `unsigned_tx_from_json`,
`unsigned_tx_to_json`, `unsigned_tx_id` and the destructor. The memory behind the pointers, one
address space of cells holding boxed transactions and the caller's own pointer variables, is the
state of a machine whose transitions are these calls. A pointer is dereferenced only where its
cell holds what the pointer's type says; anywhere else the call is undefined behaviour, and the
caller's contract (`Call.Valid`) is to pass null, a live handle, or for an out-pointer one of its
pointer variables.

Over every run from a memory with nothing boxed, every live handle holds a transaction that `new`
built: the public-field writes that leave a stale id are not reachable through the bindings. So
the id a caller reads is the hex of the hash of the handle's bytes to sign, and a transaction's
JSON read back through the bindings boxes the same transaction. Under the contract no call is
undefined, and a live handle keeps its transaction until the caller deletes it. -/

namespace SigmaRust

namespace UnsignedTransaction

variable {nMax : Nat} (deps : TxDeps nMax)

/-- `t` is what `new` returns for some fields. -/
def Built (t : UnsignedTransaction nMax) : Prop :=
  ∃ i d o, new deps i d o = .ok t

variable {deps}

theorem Built.idAgrees {t : UnsignedTransaction nMax} (h : Built deps t) : IdAgrees deps t :=
  let ⟨_, _, _, hn⟩ := h
  new_idAgrees deps hn

theorem Built.of_tryFrom {j : UnsignedTransactionJson} {t : UnsignedTransaction nMax}
    (h : tryFrom deps j = .ok t) : Built deps t :=
  let ⟨vi, vd, vo, _, _, _, hn⟩ := newFromVec_eq_ok deps (mapStop_eq_ok.mp h)
  ⟨vi, vd, vo, hn⟩

/-- The id of a built transaction is the hash of its bytes to sign. -/
theorem Built.id_eq_hash {t : UnsignedTransaction nMax} (h : Built deps t) :
    ∃ bytes, bytesToSign deps t = .ok bytes ∧ t.id = ⟨deps.blake2b256Hash bytes⟩ := by
  have hid := h.idAgrees
  unfold IdAgrees calcTxId at hid
  cases hb : bytesToSign deps t with
  | error e => rw [hb] at hid; cases hid
  | ok bytes =>
    rw [hb] at hid
    exact ⟨bytes, rfl, (Except.ok.inj hid).symm⟩

end UnsignedTransaction

namespace Bindings

/-- Modelled from the spec: the error of `ergo-lib-c-core` (declared outside `transaction.rs`),
which crosses the boundary as a string: a null pointer argument is reported with the pointer's
name, a JSON failure as `Misc`. -/
inductive Error where
  | invalidArgument (ptrName : String)
  | misc (msg : String)
  deriving DecidableEq

/-- A cell of the memory the bindings reach through raw pointers: a boxed transaction, which a
handle points to, or one of the caller's `UnsignedTransactionPtr` variables, holding an address. -/
inductive Cell (nMax : Nat) where
  | box (tx : UnsignedTransaction nMax)
  | ptr (target : Nat)

namespace Cell

variable {nMax : Nat}

/-- The transaction a cell boxes. -/
def box? : Cell nMax → Option (UnsignedTransaction nMax)
  | box tx => some tx
  | ptr _ => none

/-- The address a pointer variable holds. -/
def ptr? : Cell nMax → Option Nat
  | box _ => none
  | ptr target => some target

end Cell

/-- The memory the bindings reach through raw pointers: one address space of cells, and the
address the next `Box::new` takes. Address `0` is null. -/
structure Memory (nMax : Nat) where
  cells : Nat → Option (Cell nMax)
  next : Nat

namespace Memory

variable {nMax : Nat}

/-- The transaction boxed at an address. -/
def boxes (mem : Memory nMax) (p : Nat) : Option (UnsignedTransaction nMax) :=
  (mem.cells p).bind Cell.box?

/-- The cell at `p` holds what `view` reads: a box for a handle, a pointer variable for an
out-pointer. -/
def Holds {β : Type} (mem : Memory nMax) (view : Cell nMax → Option β) (p : Nat) : Prop :=
  ((mem.cells p).bind view).isSome = true

/-- The memory before any call: the caller's pointer variables at the addresses `vars`, each
null, below the first address `Box::new` takes; nothing is boxed. -/
def empty (nMax : Nat) (vars : List Nat) : Memory nMax where
  cells p := if p ≠ 0 ∧ p ∈ vars then some (.ptr 0) else none
  next := vars.foldr max 0 + 1

/-- `*slot = Box::into_raw(Box::new(tx))`: the transaction is boxed at the next address, and that
address is written into the caller's variable at `slot`. -/
def boxInto (mem : Memory nMax) (slot : Nat) (tx : UnsignedTransaction nMax) : Memory nMax where
  cells := Function.update (Function.update mem.cells mem.next (some (.box tx))) slot
    (some (.ptr mem.next))
  next := mem.next + 1

/-- `drop(Box::from_raw(ptr))`: the box at `ptr` is freed. -/
def free (mem : Memory nMax) (ptr : Nat) : Memory nMax :=
  { mem with cells := Function.update mem.cells ptr none }

variable {mem : Memory nMax} {slot p : Nat} {tx : UnsignedTransaction nMax}

theorem boxInto_cells_slot : (mem.boxInto slot tx).cells slot = some (.ptr mem.next) :=
  Function.update_same _ _ _

theorem boxInto_cells_of_ne (h₁ : p ≠ slot) (h₂ : p ≠ mem.next) :
    (mem.boxInto slot tx).cells p = mem.cells p := by
  simp only [boxInto, Function.update_noteq h₁, Function.update_noteq h₂]

theorem boxInto_boxes_next (h : slot ≠ mem.next) : (mem.boxInto slot tx).boxes mem.next = some tx := by
  simp only [boxes, boxInto, Function.update_noteq (Ne.symm h), Function.update_same]
  rfl

@[simp] theorem boxInto_next : (mem.boxInto slot tx).next = mem.next + 1 := rfl

theorem free_cells (q : Nat) : (mem.free slot).cells q = if q = slot then none else mem.cells q :=
  Function.update_apply _ _ _ _

theorem free_cells_of_ne (h : p ≠ slot) : (mem.free slot).cells p = mem.cells p :=
  Function.update_noteq h _ _

theorem le_foldr_max : ∀ {vars : List Nat}, p ∈ vars → p ≤ vars.foldr max 0
  | _ :: _, .head _ => Nat.le_max_left _ _
  | _ :: _, .tail _ h => le_trans (le_foldr_max h) (Nat.le_max_right _ _)

end Memory

/-- How a call across the boundary ends. -/
inductive Outcome (nMax : Nat) (α : Type) where
  /-- It returns its `Result`, leaving the memory. -/
  | ret (r : Except Error α) (mem : Memory nMax)
  /-- A panic unwinds out of it into the foreign caller. -/
  | panic (msg : String)
  /-- It dereferences a pointer that is neither null nor live: undefined behaviour. -/
  | undefined

/-- The memory a call leaves when it returns. -/
def Outcome.memory? {nMax : Nat} {α : Type} : Outcome nMax α → Option (Memory nMax)
  | .ret _ mem => some mem
  | _ => none

theorem Outcome.memory?_eq_some {nMax : Nat} {α : Type} {o : Outcome nMax α} {mem : Memory nMax} :
    o.memory? = some mem ↔ ∃ r, o = .ret r mem := by
  cases o with
  | ret r m => exact ⟨fun h => ⟨r, by cases h; rfl⟩, fun ⟨_, h⟩ => by cases h; rfl⟩
  | panic msg | undefined => exact ⟨fun h => (by cases h), fun ⟨_, h⟩ => (by cases h)⟩

/-- `Base16EncodedBytes::new` (outside the repository; modelled from the spec's hex string): two
lowercase hex digits a byte, the high nibble first. -/
def base16 (bytes : List UInt8) : String :=
  String.mk (bytes.flatMap fun b => [Nat.digitChar (b.toNat / 16), Nat.digitChar (b.toNat % 16)])

/-- `serde_json` as these calls use it (outside the repository): JSON text read as an
`UnsignedTransactionJson`, and one written as text; each may fail. -/
structure JsonCodec where
  fromStr : String → Option UnsignedTransactionJson
  toStr : UnsignedTransactionJson → Option String

section Calls

variable {nMax : Nat} (deps : TxDeps nMax) (codec : JsonCodec) {α : Type}

/-- Modelled from the spec: the pointer conversions of `util` (declared outside `transaction.rs`)
and the rest `k` of the call. A null pointer is an error naming it; any other is dereferenced,
which is defined only where its cell holds what `view` reads. -/
def derefPtr {β : Type} (mem : Memory nMax) (ptr : Nat) (ptrName : String)
    (view : Cell nMax → Option β) (k : β → Outcome nMax α) : Outcome nMax α :=
  if ptr = 0 then .ret (.error (.invalidArgument ptrName)) mem
  else match (mem.cells ptr).bind view with
    | some b => k b
    | none => .undefined

/-- Modelled from the spec: `const_ptr_as_ref(ptr, ptr_name)?` on a handle, which points to a
boxed transaction. -/
def constPtrAsRef (mem : Memory nMax) (ptr : Nat) (ptrName : String)
    (k : UnsignedTransaction nMax → Except Error α) : Outcome nMax α :=
  derefPtr mem ptr ptrName Cell.box? fun tx => .ret (k tx) mem

/-- Modelled from the spec: `mut_ptr_as_mut(ptr, ptr_name)?` on an out-pointer, which points to
one of the caller's pointer variables. -/
def mutPtrAsMut (mem : Memory nMax) (ptr : Nat) (ptrName : String) (k : Nat → Outcome nMax α) :
    Outcome nMax α :=
  derefPtr mem ptr ptrName Cell.ptr? fun _ => k ptr

/-- `serde_json::from_str::<UnsignedTransaction>`: the text read as an `UnsignedTransactionJson`,
then `try_from` (`UnsignedTransaction` is `#[serde(try_from)]`); a panic in `try_from` unwinds. -/
def fromStr (json : String) : Except (Stop Unit) (UnsignedTransaction nMax) :=
  match codec.fromStr json with
  | none => .error (.err ())
  | some j => mapStop (fun _ => ()) (UnsignedTransaction.tryFrom deps j)

/-- `unsigned_tx_id`. -/
def unsignedTxId (unsignedTxPtr : Nat) (mem : Memory nMax) : Outcome nMax String :=
  constPtrAsRef mem unsignedTxPtr "unsigned_tx_ptr" fun tx => .ok (base16 tx.id.digest.bytes)

/-- `unsigned_tx_from_json`. -/
def unsignedTxFromJson (json : String) (unsignedTxOut : Nat) (mem : Memory nMax) :
    Outcome nMax Unit :=
  mutPtrAsMut mem unsignedTxOut "unsigned_tx_out" fun slot =>
    match fromStr deps codec json with
    | .ok tx => .ret (.ok ()) (mem.boxInto slot tx)
    | .error (.err _) => .ret (.error (.misc "UnsignedTransaction: can't deserialize from JSON")) mem
    | .error (.panic msg) => .panic msg

/-- `unsigned_tx_to_json`. -/
def unsignedTxToJson (unsignedTxPtr : Nat) (mem : Memory nMax) : Outcome nMax String :=
  constPtrAsRef mem unsignedTxPtr "unsigned_tx_ptr" fun tx =>
    match codec.toStr (UnsignedTransactionJson.ofUnsignedTransaction tx) with
    | some json => .ok json
    | none => .error (.misc "UnsignedTransaction: can't serialize into JSON")

/-- Modelled from the spec: the destructor that matches the handle (declared outside
`transaction.rs`). A null pointer is ignored and a live handle's box is freed; freeing anything
else is undefined behaviour. -/
def unsignedTxDelete (unsignedTxPtr : Nat) (mem : Memory nMax) : Outcome nMax Unit :=
  if unsignedTxPtr = 0 then .ret (.ok ()) mem
  else match mem.boxes unsignedTxPtr with
    | some _ => .ret (.ok ()) (mem.free unsignedTxPtr)
    | none => .undefined

/-- A call across the boundary, with its arguments. -/
inductive Call where
  | fromJson (json : String) (unsignedTxOut : Nat)
  | toJson (unsignedTxPtr : Nat)
  | id (unsignedTxPtr : Nat)
  | delete (unsignedTxPtr : Nat)

/-- The memory one call leaves; `none` when it panics or is undefined. -/
def Call.step : Call → Memory nMax → Option (Memory nMax)
  | .fromJson json out, mem => (unsignedTxFromJson deps codec json out mem).memory?
  | .toJson ptr, mem => (unsignedTxToJson codec ptr mem).memory?
  | .id ptr, mem => (unsignedTxId ptr mem).memory?
  | .delete ptr, mem => (unsignedTxDelete ptr mem).memory?

/-- A run of calls, which stops at the first one that panics or is undefined. -/
def run : List Call → Memory nMax → Option (Memory nMax)
  | [], mem => some mem
  | c :: cs, mem => (c.step deps codec mem).bind (run cs)

/-- The caller's side of the contract: a handle it passes is null or live, and an out-pointer is
null or points to one of its pointer variables. -/
def Call.Valid (mem : Memory nMax) : Call → Prop
  | .fromJson _ out => out = 0 ∨ mem.Holds Cell.ptr? out
  | .toJson ptr | .id ptr | .delete ptr => ptr = 0 ∨ mem.Holds Cell.box? ptr

/-- The caller keeps its side of the contract at every call of a run. -/
def Call.ValidRun : Memory nMax → List Call → Prop
  | _, [] => True
  | mem, c :: cs => c.Valid mem ∧ ∀ mem', c.step deps codec mem = some mem' → Call.ValidRun mem' cs

end Calls

namespace Memory

variable {nMax : Nat} (deps : TxDeps nMax)

/-- What every memory reached through the bindings satisfies: null and every address from the
next one on hold nothing, and every boxed transaction is one that `new` built. -/
structure Sound (mem : Memory nMax) : Prop where
  next_pos : 0 < mem.next
  null_empty : mem.cells 0 = none
  above_next : ∀ p, mem.next ≤ p → mem.cells p = none
  built : ∀ p tx, mem.boxes p = some tx → UnsignedTransaction.Built deps tx

theorem sound_empty (vars : List Nat) : (Memory.empty nMax vars).Sound deps where
  next_pos := Nat.succ_pos _
  null_empty := show (if (0 : Nat) ≠ 0 ∧ 0 ∈ vars then some (Cell.ptr 0) else none) = none from
    if_neg fun h => h.1 rfl
  above_next p hp := by
    change vars.foldr max 0 + 1 ≤ p at hp
    exact if_neg fun h => absurd (le_foldr_max h.2) (by omega)
  built p tx hp := by
    simp only [boxes, empty] at hp
    split at hp <;> cases hp

variable {deps} {mem : Memory nMax}

theorem Sound.ne_zero (hs : mem.Sound deps) {p : Nat} {c : Cell nMax} (hp : mem.cells p = some c) :
    p ≠ 0 := by
  rintro rfl
  rw [hs.null_empty] at hp
  cases hp

theorem Sound.lt_next (hs : mem.Sound deps) {p : Nat} {c : Cell nMax} (hp : mem.cells p = some c) :
    p < mem.next :=
  Nat.lt_of_not_le fun h => by rw [hs.above_next p h] at hp; cases hp

theorem cells_of_holds {β : Type} {view : Cell nMax → Option β} {p : Nat} (h : mem.Holds view p) :
    ∃ c, mem.cells p = some c ∧ (view c).isSome = true := by
  unfold Holds at h
  cases hc : mem.cells p with
  | none => rw [hc] at h; cases h
  | some c => rw [hc] at h; exact ⟨c, rfl, h⟩

/-- A pointer variable is not a box. -/
theorem boxes_of_holds_ptr {p : Nat} (h : mem.Holds Cell.ptr? p) : mem.boxes p = none := by
  obtain ⟨c, hc, hv⟩ := cells_of_holds h
  cases c with
  | box _ => cases hv
  | ptr _ => rw [boxes, hc]; rfl

/-- Boxing a built transaction at the next address, and writing that address into a pointer
variable, keeps the memory sound. -/
theorem Sound.boxInto (hs : mem.Sound deps) {slot : Nat} (hslot : mem.Holds Cell.ptr? slot)
    {tx : UnsignedTransaction nMax} (htx : UnsignedTransaction.Built deps tx) :
    (mem.boxInto slot tx).Sound deps := by
  obtain ⟨c, hc, -⟩ := cells_of_holds hslot
  have hs0 := hs.ne_zero hc
  have hsn := hs.lt_next hc
  refine ⟨Nat.succ_pos _, ?_, fun p hp => ?_, fun p tx' hp => ?_⟩
  · rw [boxInto_cells_of_ne (Ne.symm hs0) (Nat.ne_of_lt hs.next_pos), hs.null_empty]
  · rw [boxInto_next] at hp
    rw [boxInto_cells_of_ne (by omega) (by omega), hs.above_next p (by omega)]
  · by_cases hps : p = slot
    · subst hps
      rw [boxes, boxInto_cells_slot] at hp
      cases hp
    by_cases hpn : p = mem.next
    · subst hpn
      rw [boxInto_boxes_next (Nat.ne_of_lt hsn)] at hp
      exact Option.some.inj hp ▸ htx
    · exact hs.built p tx' (by rw [boxes, ← boxInto_cells_of_ne hps hpn]; exact hp)

/-- Boxing at the next address and writing into a pointer variable leaves every live handle as it
was. -/
theorem Sound.boxInto_of_live (hs : mem.Sound deps) {slot : Nat} (hslot : mem.Holds Cell.ptr? slot)
    (tx' : UnsignedTransaction nMax) {p : Nat} {tx : UnsignedTransaction nMax}
    (hp : mem.boxes p = some tx) : (mem.boxInto slot tx').boxes p = some tx := by
  have hps : p ≠ slot := by
    rintro rfl
    rw [boxes_of_holds_ptr hslot] at hp
    cases hp
  have hpn : p ≠ mem.next := by
    rintro rfl
    rw [boxes, hs.above_next _ le_rfl] at hp
    cases hp
  rw [boxes, boxInto_cells_of_ne hps hpn]
  exact hp

/-- Freeing a box keeps the memory sound. -/
theorem Sound.free (hs : mem.Sound deps) (ptr : Nat) : (mem.free ptr).Sound deps where
  next_pos := hs.next_pos
  null_empty := by
    rw [free_cells]
    split_ifs <;> [rfl; exact hs.null_empty]
  above_next q hq := by
    rw [free_cells]
    split_ifs <;> [rfl; exact hs.above_next q hq]
  built q tx hq := by
    rw [boxes, free_cells] at hq
    split_ifs at hq
    · cases hq
    · exact hs.built q tx hq

end Memory

section Steps

variable {nMax : Nat} {deps : TxDeps nMax} {codec : JsonCodec} {α : Type}

theorem fromStr_built {json : String} {tx : UnsignedTransaction nMax}
    (h : fromStr deps codec json = .ok tx) : UnsignedTransaction.Built deps tx := by
  unfold fromStr at h
  split at h
  · cases h
  · exact UnsignedTransaction.Built.of_tryFrom (mapStop_eq_ok.mp h)

theorem derefPtr_null {β : Type} (mem : Memory nMax) (ptrName : String)
    (view : Cell nMax → Option β) (k : β → Outcome nMax α) :
    derefPtr mem 0 ptrName view k = .ret (.error (.invalidArgument ptrName)) mem :=
  if_pos rfl

theorem derefPtr_of_view {β : Type} {mem : Memory nMax} {ptr : Nat} {b : β}
    {view : Cell nMax → Option β} (hptr : ptr ≠ 0) (hb : (mem.cells ptr).bind view = some b)
    (ptrName : String) (k : β → Outcome nMax α) : derefPtr mem ptr ptrName view k = k b := by
  rw [derefPtr, if_neg hptr, hb]

/-- A call that only reads through a handle leaves the memory as it was, and rejects null. -/
theorem constPtrAsRef_ret {mem mem' : Memory nMax} {ptr : Nat} {ptrName : String}
    {k : UnsignedTransaction nMax → Except Error α} {r : Except Error α}
    (h : constPtrAsRef mem ptr ptrName k = .ret r mem') :
    mem' = mem ∧ (ptr = 0 → r = .error (.invalidArgument ptrName)) := by
  unfold constPtrAsRef derefPtr at h
  split at h
  · cases h
    exact ⟨rfl, fun _ => rfl⟩
  · split at h
    · cases h
      exact ⟨rfl, fun hp => absurd hp ‹_›⟩
    · cases h

theorem constPtrAsRef_of_boxes {mem : Memory nMax} {ptr : Nat} {tx : UnsignedTransaction nMax}
    (hptr : ptr ≠ 0) (hp : mem.boxes ptr = some tx) (ptrName : String)
    (k : UnsignedTransaction nMax → Except Error α) :
    constPtrAsRef mem ptr ptrName k = .ret (k tx) mem :=
  derefPtr_of_view hptr hp _ _

theorem memory?_constPtrAsRef {mem mem' : Memory nMax} {ptr : Nat} {ptrName : String}
    {k : UnsignedTransaction nMax → Except Error α}
    (h : (constPtrAsRef mem ptr ptrName k).memory? = some mem') : mem' = mem :=
  let ⟨_, hc⟩ := Outcome.memory?_eq_some.mp h
  (constPtrAsRef_ret hc).1

/-- `unsigned_tx_from_json` either boxes a transaction that `try_from` built at the next address
and writes that address into the caller's pointer variable, or leaves the memory as it was: a null
out-pointer is rejected by name before the JSON is read, and JSON that cannot be read is one `Misc`
error. -/
theorem unsignedTxFromJson_ret {json : String} {out : Nat} {mem mem' : Memory nMax}
    {r : Except Error Unit} (h : unsignedTxFromJson deps codec json out mem = .ret r mem') :
    (∃ tx, fromStr deps codec json = .ok tx ∧ mem.Holds Cell.ptr? out ∧ r = .ok () ∧
      mem' = mem.boxInto out tx) ∨
    (mem' = mem ∧ (out = 0 ∧ r = .error (.invalidArgument "unsigned_tx_out") ∨
      out ≠ 0 ∧ r = .error (.misc "UnsignedTransaction: can't deserialize from JSON"))) := by
  unfold unsignedTxFromJson mutPtrAsMut derefPtr at h
  by_cases hout : out = 0
  · rw [if_pos hout] at h
    cases h
    exact .inr ⟨rfl, .inl ⟨hout, rfl⟩⟩
  rw [if_neg hout] at h
  cases hc : (mem.cells out).bind Cell.ptr? with
  | none => rw [hc] at h; cases h
  | some t =>
    rw [hc] at h
    dsimp only at h
    split at h
    · cases h
      exact .inl ⟨_, ‹_›, by rw [Memory.Holds, hc]; rfl, rfl, rfl⟩
    · cases h
      exact .inr ⟨rfl, .inr ⟨hout, rfl⟩⟩
    · cases h

/-- One call keeps the memory sound. -/
theorem step_sound {mem mem' : Memory nMax} (hs : mem.Sound deps) (c : Call)
    (h : c.step deps codec mem = some mem') : mem'.Sound deps := by
  cases c with
  | fromJson json out =>
    obtain ⟨r, hc⟩ := Outcome.memory?_eq_some.mp h
    rcases unsignedTxFromJson_ret hc with ⟨tx, htx, hslot, -, rfl⟩ | ⟨rfl, -⟩
    · exact hs.boxInto hslot (fromStr_built htx)
    · exact hs
  | toJson ptr => exact memory?_constPtrAsRef h ▸ hs
  | id ptr => exact memory?_constPtrAsRef h ▸ hs
  | delete ptr =>
    simp only [Call.step, unsignedTxDelete] at h
    split at h
    · cases h; exact hs
    · split at h
      · cases h; exact hs.free ptr
      · cases h

/-- Every run keeps the memory sound. -/
theorem run_sound : ∀ (calls : List Call) {mem mem' : Memory nMax}, mem.Sound deps →
    run deps codec calls mem = some mem' → mem'.Sound deps
  | [], _, _, hs, h => by cases h; exact hs
  | c :: cs, mem, _, hs, h => by
    cases hc : c.step deps codec mem with
    | none => rw [run, hc] at h; cases h
    | some m =>
      rw [run, hc] at h
      exact run_sound cs (step_sound hs c hc) h

/-- One call leaves every live handle holding what it held, unless the call deletes that handle:
`unsigned_tx_from_json` writes only into a pointer variable and boxes at the next address, which
in a sound memory is not live. -/
theorem step_keeps_live {mem mem' : Memory nMax} (hs : mem.Sound deps) {c : Call}
    (h : c.step deps codec mem = some mem') {p : Nat} {tx : UnsignedTransaction nMax}
    (hp : mem.boxes p = some tx) (hc : c ≠ .delete p) : mem'.boxes p = some tx := by
  cases c with
  | fromJson json out =>
    obtain ⟨r, hr⟩ := Outcome.memory?_eq_some.mp h
    rcases unsignedTxFromJson_ret hr with ⟨tx', -, hslot, -, rfl⟩ | ⟨rfl, -⟩
    · exact hs.boxInto_of_live hslot tx' hp
    · exact hp
  | toJson ptr => exact memory?_constPtrAsRef h ▸ hp
  | id ptr => exact memory?_constPtrAsRef h ▸ hp
  | delete ptr =>
    have hne : p ≠ ptr := fun hpp => hc (hpp ▸ rfl)
    simp only [Call.step, unsignedTxDelete] at h
    split at h
    · cases h; exact hp
    · split at h
      · cases h; rw [Memory.boxes, Memory.free_cells_of_ne hne]; exact hp
      · cases h

theorem memory?_constPtrAsRef_of_valid {mem : Memory nMax} {ptr : Nat}
    (hptr : ptr = 0 ∨ mem.Holds Cell.box? ptr) (ptrName : String)
    (k : UnsignedTransaction nMax → Except Error α) :
    (constPtrAsRef mem ptr ptrName k).memory? = some mem := by
  unfold constPtrAsRef derefPtr
  split
  · rfl
  · obtain ⟨tx, htx⟩ := Option.isSome_iff_exists.mp (hptr.resolve_left ‹_›)
    rw [htx]
    rfl

/-- Under the contract a call stops only where `try_from` panics on the JSON it reads. -/
theorem step_eq_none_of_valid {mem : Memory nMax} {c : Call} (hc : c.Valid mem)
    (h : c.step deps codec mem = none) :
    ∃ json out msg, c = .fromJson json out ∧ out ≠ 0 ∧ fromStr deps codec json = .error (.panic msg) := by
  cases c with
  | fromJson json out =>
    by_cases hout : out = 0
    · subst hout
      rw [Call.step, unsignedTxFromJson, mutPtrAsMut, derefPtr_null] at h
      cases h
    obtain ⟨t, ht⟩ := Option.isSome_iff_exists.mp (hc.resolve_left hout)
    rw [Call.step, unsignedTxFromJson, mutPtrAsMut, derefPtr_of_view hout ht] at h
    rcases hf : fromStr deps codec json with (_ | msg) | tx <;> rw [hf] at h <;> try cases h
    exact ⟨json, out, msg, rfl, hout, hf⟩
  | toJson ptr => rw [Call.step, unsignedTxToJson, memory?_constPtrAsRef_of_valid hc] at h; cases h
  | id ptr => rw [Call.step, unsignedTxId, memory?_constPtrAsRef_of_valid hc] at h; cases h
  | delete ptr =>
    simp only [Call.step, unsignedTxDelete] at h
    split at h
    · cases h
    · obtain ⟨tx, htx⟩ := Option.isSome_iff_exists.mp (hc.resolve_left ‹_›)
      rw [show mem.boxes ptr = some tx from htx] at h
      cases h

theorem Memory.cells_of_boxes {mem : Memory nMax} {p : Nat} {tx : UnsignedTransaction nMax}
    (hp : mem.boxes p = some tx) : mem.cells p = some (.box tx) := by
  unfold Memory.boxes at hp
  cases hc : mem.cells p with
  | none => rw [hc] at hp; cases hp
  | some c => rw [hc] at hp; cases c <;> cases hp; rfl

/-- A run of calls none of which deletes a live handle leaves it holding what it held. -/
theorem run_keeps_live : ∀ (calls : List Call) {mem mem' : Memory nMax}, mem.Sound deps →
    run deps codec calls mem = some mem' → ∀ {p : Nat} {tx : UnsignedTransaction nMax},
      mem.boxes p = some tx → Call.delete p ∉ calls → mem'.boxes p = some tx
  | [], _, _, _, h, _, _, hp, _ => by cases h; exact hp
  | c :: cs, mem, _, hs, h, p, _, hp, hdel => by
    cases hc : c.step deps codec mem with
    | none => rw [run, hc] at h; cases h
    | some m =>
      rw [run, hc] at h
      have hne : c ≠ .delete p := fun he => hdel (he ▸ List.mem_cons_self _ _)
      exact run_keeps_live cs (step_sound hs c hc) h (step_keeps_live hs hc hp hne)
        fun hm => hdel (List.mem_cons_of_mem _ hm)

/-- A run of calls that keeps the contract, on JSON whose `try_from` does not panic, returns. -/
theorem run_of_validRun : ∀ (calls : List Call) {mem : Memory nMax},
    Call.ValidRun deps codec mem calls →
    (∀ json out, Call.fromJson json out ∈ calls → ∀ msg, fromStr deps codec json ≠ .error (.panic msg)) →
      ∃ mem', run deps codec calls mem = some mem'
  | [], mem, _, _ => ⟨mem, rfl⟩
  | c :: cs, mem, ⟨hc, hcs⟩, hjson => by
    cases hstep : c.step deps codec mem with
    | none =>
      obtain ⟨json, out, msg, rfl, -, hf⟩ := step_eq_none_of_valid hc hstep
      exact absurd hf (hjson json out (List.mem_cons_self _ _) msg)
    | some m =>
      obtain ⟨mem', hrun⟩ := run_of_validRun cs (hcs m hstep) fun json out hm =>
        hjson json out (List.mem_cons_of_mem _ hm)
      exact ⟨mem', by rw [run, hstep]; exact hrun⟩

/-- A stand-in for `serde_json` that knows one document: `"tx"` reads as one input of box `0³²`, no
data inputs and one output, and every document is written as `"tx"`. -/
def oneDocument : JsonCodec where
  fromStr json := if json = "tx" then some ⟨[⟨⟨Digest32.zero⟩, ⟨[]⟩⟩], [], [⟨0, [], 0⟩]⟩ else none
  toStr _ := some "tx"

/-- The transaction `oneDocument` reads, with the id `byBoxIds` gives it. -/
def zeroBoxTx : UnsignedTransaction 1 :=
  ⟨TxId.zero, ⟨[⟨⟨Digest32.zero⟩, ⟨[]⟩⟩], le_rfl, le_rfl⟩, none, ⟨[⟨0, [], 0⟩], le_rfl, le_rfl⟩⟩

/-- Off the contract a call is undefined: `unsigned_tx_id(5)`, with `5` the caller's pointer
variable rather than a handle, reads a cell that holds no transaction. -/
example :
    (Call.id 5).step (UnsignedTransaction.byBoxIds 1) oneDocument (Memory.empty 1 [5]) = none ∧
      ¬ (Call.id 5).Valid (Memory.empty 1 [5]) :=
  ⟨rfl, fun h => h.elim (absurd · (by decide)) Bool.false_ne_true⟩

/-- Through the bindings no field of a boxed transaction can be written, so after any run of calls
from a memory with nothing boxed every handle the caller holds is non-null, its cached id agrees
with a fresh recomputation, and `unsigned_tx_id` returns the base16 of the hash of its current
bytes to sign. -/
theorem run_unsignedTxId_eq_hash {vars : List Nat} {calls : List Call} {mem : Memory nMax}
    (hrun : run deps codec calls (.empty nMax vars) = some mem) {p : Nat}
    {tx : UnsignedTransaction nMax} (hp : mem.boxes p = some tx) :
    p ≠ 0 ∧ UnsignedTransaction.IdAgrees deps tx ∧
      ∃ bytes, UnsignedTransaction.bytesToSign deps tx = .ok bytes ∧
        unsignedTxId p mem = .ret (.ok (base16 (deps.blake2b256Hash bytes).bytes)) mem := by
  have hs := run_sound calls (Memory.sound_empty deps vars) hrun
  have hb := hs.built p tx hp
  have hp0 := hs.ne_zero (Memory.cells_of_boxes hp)
  obtain ⟨bytes, hbytes, hid⟩ := hb.id_eq_hash
  refine ⟨hp0, hb.idAgrees, bytes, hbytes, ?_⟩
  rw [unsignedTxId, constPtrAsRef_of_boxes hp0 hp, hid]

/-- After `unsigned_tx_from_json("tx", 5)`, into the caller's variable `5`, the handle at address
`6` reads back the hex of the hash of its bytes to sign. -/
theorem zero_box_handle_id :
    run (UnsignedTransaction.byBoxIds 1) oneDocument [.fromJson "tx" 5] (.empty 1 [5]) =
        some ((Memory.empty 1 [5]).boxInto 5 zeroBoxTx) ∧
      ((Memory.empty 1 [5]).boxInto 5 zeroBoxTx).boxes 6 = some zeroBoxTx ∧
      (6 ≠ 0 ∧ UnsignedTransaction.IdAgrees (UnsignedTransaction.byBoxIds 1) zeroBoxTx ∧
        ∃ bytes, UnsignedTransaction.bytesToSign (UnsignedTransaction.byBoxIds 1) zeroBoxTx = .ok bytes ∧
          unsignedTxId 6 ((Memory.empty 1 [5]).boxInto 5 zeroBoxTx) =
            .ret (.ok (base16 ((UnsignedTransaction.byBoxIds 1).blake2b256Hash bytes).bytes))
              ((Memory.empty 1 [5]).boxInto 5 zeroBoxTx)) :=
  have hrun : run (UnsignedTransaction.byBoxIds 1) oneDocument [.fromJson "tx" 5] (.empty 1 [5]) =
      some ((Memory.empty 1 [5]).boxInto 5 zeroBoxTx) := rfl
  have hp : ((Memory.empty 1 [5]).boxInto 5 zeroBoxTx).boxes 6 = some zeroBoxTx := rfl
  ⟨hrun, hp, run_unsignedTxId_eq_hash hrun hp⟩

/-- After any run of calls from a memory with nothing boxed, the JSON `unsigned_tx_to_json` writes
for a handle is read back by `unsigned_tx_from_json`, into any of the caller's pointer variables,
as a new handle holding the same transaction, with the same id, wherever `serde_json` reads back
what it wrote. -/
theorem run_json_reads_back {vars : List Nat} {calls : List Call} {mem : Memory nMax}
    (hrun : run deps codec calls (.empty nMax vars) = some mem) {p : Nat}
    {tx : UnsignedTransaction nMax} (hp : mem.boxes p = some tx) {json : String}
    (hjson : unsignedTxToJson codec p mem = .ret (.ok json) mem)
    (hcodec : codec.toStr (UnsignedTransactionJson.ofUnsignedTransaction tx) = some json →
      codec.fromStr json = some (UnsignedTransactionJson.ofUnsignedTransaction tx))
    {out : Nat} (hout : mem.Holds Cell.ptr? out) :
    unsignedTxFromJson deps codec json out mem = .ret (.ok ()) (mem.boxInto out tx) := by
  have hs := run_sound calls (Memory.sound_empty deps vars) hrun
  obtain ⟨i, d, o, hn⟩ := hs.built p tx hp
  rw [unsignedTxToJson, constPtrAsRef_of_boxes (hs.ne_zero (Memory.cells_of_boxes hp)) hp] at hjson
  have hwrite : codec.toStr (UnsignedTransactionJson.ofUnsignedTransaction tx) = some json := by
    split at hjson <;> cases hjson
    assumption
  have hfrom : fromStr deps codec json = .ok tx := by
    rw [fromStr, hcodec hwrite]
    dsimp only
    rw [UnsignedTransaction.tryFrom_ofUnsignedTransaction deps hn]
    rfl
  obtain ⟨c, hc, -⟩ := Memory.cells_of_holds hout
  obtain ⟨t, ht⟩ := Option.isSome_iff_exists.mp hout
  rw [unsignedTxFromJson, mutPtrAsMut, derefPtr_of_view (hs.ne_zero hc) ht, hfrom]

/-- The handle `unsigned_tx_from_json("tx", 5)` boxes is written as `"tx"`, which reads back, into
the caller's variable `9`, as the same transaction. -/
theorem zero_box_json_reads_back :
    run (UnsignedTransaction.byBoxIds 1) oneDocument [.fromJson "tx" 5] (.empty 1 [5, 9]) =
        some ((Memory.empty 1 [5, 9]).boxInto 5 zeroBoxTx) ∧
      ((Memory.empty 1 [5, 9]).boxInto 5 zeroBoxTx).boxes 10 = some zeroBoxTx ∧
      unsignedTxToJson oneDocument 10 ((Memory.empty 1 [5, 9]).boxInto 5 zeroBoxTx) =
        .ret (.ok "tx") ((Memory.empty 1 [5, 9]).boxInto 5 zeroBoxTx) ∧
      ((Memory.empty 1 [5, 9]).boxInto 5 zeroBoxTx).Holds Cell.ptr? 9 ∧
      unsignedTxFromJson (UnsignedTransaction.byBoxIds 1) oneDocument "tx" 9
          ((Memory.empty 1 [5, 9]).boxInto 5 zeroBoxTx) =
        .ret (.ok ()) (((Memory.empty 1 [5, 9]).boxInto 5 zeroBoxTx).boxInto 9 zeroBoxTx) :=
  have hrun : run (UnsignedTransaction.byBoxIds 1) oneDocument [.fromJson "tx" 5] (.empty 1 [5, 9]) =
      some ((Memory.empty 1 [5, 9]).boxInto 5 zeroBoxTx) := rfl
  have hp : ((Memory.empty 1 [5, 9]).boxInto 5 zeroBoxTx).boxes 10 = some zeroBoxTx := rfl
  have hjson : unsignedTxToJson oneDocument 10 ((Memory.empty 1 [5, 9]).boxInto 5 zeroBoxTx) =
      .ret (.ok "tx") ((Memory.empty 1 [5, 9]).boxInto 5 zeroBoxTx) := rfl
  have hout : ((Memory.empty 1 [5, 9]).boxInto 5 zeroBoxTx).Holds Cell.ptr? 9 := rfl
  ⟨hrun, hp, hjson, hout, run_json_reads_back hrun hp hjson (fun _ => rfl) hout⟩

/-- After any run of calls from a memory with nothing boxed, a successful
`unsigned_tx_from_json(json, out)` writes into the caller's variable at `out` the address of a new,
non-null handle, one that held nothing, and leaves every live handle as it was. The new handle
holds a transaction whose JSON is the document `json` was read as, so `unsigned_tx_to_json` on it
writes what `serde_json` writes for that document: an empty `data_inputs` list comes back as an
empty list. -/
theorem run_fromJson_toJson {vars : List Nat} {calls : List Call} {mem mem' : Memory nMax}
    (hrun : run deps codec calls (.empty nMax vars) = some mem) {json : String} {out : Nat}
    (h : unsignedTxFromJson deps codec json out mem = .ret (.ok ()) mem') :
    ∃ j tx, codec.fromStr json = some j ∧ mem'.cells out = some (.ptr mem.next) ∧ mem.next ≠ 0 ∧
      mem.cells mem.next = none ∧ (∀ p t, mem.boxes p = some t → mem'.boxes p = some t) ∧
      mem'.boxes mem.next = some tx ∧ UnsignedTransactionJson.ofUnsignedTransaction tx = j ∧
      ∀ text, codec.toStr j = some text →
        unsignedTxToJson codec mem.next mem' = .ret (.ok text) mem' := by
  have hs := run_sound calls (Memory.sound_empty deps vars) hrun
  rcases unsignedTxFromJson_ret h with ⟨tx, htx, hslot, -, rfl⟩ | ⟨-, (⟨-, h'⟩ | ⟨-, h'⟩)⟩
  · unfold fromStr at htx
    split at htx
    · cases htx
    · rename_i j hj
      have hback := (UnsignedTransaction.ofUnsignedTransaction_tryFrom deps (mapStop_eq_ok.mp htx)).1
      obtain ⟨c, hc, -⟩ := Memory.cells_of_holds hslot
      have hbox : (mem.boxInto out tx).boxes mem.next = some tx :=
        Memory.boxInto_boxes_next (Nat.ne_of_lt (hs.lt_next hc))
      refine ⟨j, tx, hj, Memory.boxInto_cells_slot, Nat.ne_of_gt hs.next_pos,
        hs.above_next _ le_rfl, fun p t hp => hs.boxInto_of_live hslot tx hp, hbox, hback,
        fun text htext => ?_⟩
      rw [unsignedTxToJson, constPtrAsRef_of_boxes (Nat.ne_of_gt hs.next_pos) hbox, hback, htext]
  · cases h'
  · cases h'

/-- `unsigned_tx_from_json("tx", 5)` on the memory holding the caller's variable `5` boxes the
transaction of `"tx"` at address `6`, and `unsigned_tx_to_json(6)` writes `"tx"` back. -/
theorem zero_box_from_json_to_json :
    run (UnsignedTransaction.byBoxIds 1) oneDocument [] (.empty 1 [5]) = some (.empty 1 [5]) ∧
      unsignedTxFromJson (UnsignedTransaction.byBoxIds 1) oneDocument "tx" 5 (.empty 1 [5]) =
        .ret (.ok ()) ((Memory.empty 1 [5]).boxInto 5 zeroBoxTx) ∧
      ∃ j tx, oneDocument.fromStr "tx" = some j ∧
        ((Memory.empty 1 [5]).boxInto 5 zeroBoxTx).cells 5 = some (.ptr (Memory.empty 1 [5]).next) ∧
        (Memory.empty 1 [5]).next ≠ 0 ∧
        (Memory.empty 1 [5]).cells (Memory.empty 1 [5]).next = none ∧
        (∀ p t, (Memory.empty 1 [5]).boxes p = some t →
          ((Memory.empty 1 [5]).boxInto 5 zeroBoxTx).boxes p = some t) ∧
        ((Memory.empty 1 [5]).boxInto 5 zeroBoxTx).boxes (Memory.empty 1 [5]).next = some tx ∧
        UnsignedTransactionJson.ofUnsignedTransaction tx = j ∧
        ∀ text, oneDocument.toStr j = some text →
          unsignedTxToJson oneDocument (Memory.empty 1 [5]).next
            ((Memory.empty 1 [5]).boxInto 5 zeroBoxTx) =
            .ret (.ok text) ((Memory.empty 1 [5]).boxInto 5 zeroBoxTx) :=
  have hrun : run (UnsignedTransaction.byBoxIds 1) oneDocument [] (.empty 1 [5]) =
      some (.empty 1 [5]) := rfl
  have h : unsignedTxFromJson (UnsignedTransaction.byBoxIds 1) oneDocument "tx" 5 (.empty 1 [5]) =
      .ret (.ok ()) ((Memory.empty 1 [5]).boxInto 5 zeroBoxTx) := rfl
  ⟨hrun, h, run_fromJson_toJson hrun h⟩

/-- A handle is stable until the caller deletes it, as long as the caller keeps the contract: after
any run of calls from a memory with nothing boxed, every later run of calls that keeps the
contract, deletes no live handle and reads no JSON whose `try_from` panics returns, and leaves the
handle holding the same transaction, whose id `unsigned_tx_id` still returns. -/
theorem run_handle_stable {vars : List Nat} {calls calls' : List Call} {mem : Memory nMax}
    (hrun : run deps codec calls (.empty nMax vars) = some mem) {p : Nat}
    {tx : UnsignedTransaction nMax} (hp : mem.boxes p = some tx)
    (hvalid : Call.ValidRun deps codec mem calls') (hdel : Call.delete p ∉ calls')
    (hjson : ∀ json out, Call.fromJson json out ∈ calls' → ∀ msg,
      fromStr deps codec json ≠ .error (.panic msg)) :
    ∃ mem', run deps codec calls' mem = some mem' ∧ mem'.boxes p = some tx ∧
      unsignedTxId p mem' = .ret (.ok (base16 tx.id.digest.bytes)) mem' := by
  have hs := run_sound calls (Memory.sound_empty deps vars) hrun
  obtain ⟨mem', hrun'⟩ := run_of_validRun calls' hvalid hjson
  have hp' := run_keeps_live calls' hs hrun' hp hdel
  have hs' := run_sound calls' hs hrun'
  exact ⟨mem', hrun', hp', by
    rw [unsignedTxId, constPtrAsRef_of_boxes (hs'.ne_zero (Memory.cells_of_boxes hp')) hp']⟩

/-- The handle `7` that `unsigned_tx_from_json("tx", 5)` boxes outlives a second read of `"tx"`,
into the caller's other variable `6`, and two reads through it. -/
theorem zero_box_handle_stable :
    run (UnsignedTransaction.byBoxIds 1) oneDocument [.fromJson "tx" 5] (.empty 1 [5, 6]) =
        some ((Memory.empty 1 [5, 6]).boxInto 5 zeroBoxTx) ∧
      ((Memory.empty 1 [5, 6]).boxInto 5 zeroBoxTx).boxes 7 = some zeroBoxTx ∧
      Call.ValidRun (UnsignedTransaction.byBoxIds 1) oneDocument
        ((Memory.empty 1 [5, 6]).boxInto 5 zeroBoxTx) [.fromJson "tx" 6, .id 7, .toJson 7] ∧
      Call.delete 7 ∉ [.fromJson "tx" 6, .id 7, .toJson 7] ∧
      (∀ json out, Call.fromJson json out ∈ [Call.fromJson "tx" 6, .id 7, .toJson 7] → ∀ msg,
        fromStr (UnsignedTransaction.byBoxIds 1) oneDocument json ≠ .error (.panic msg)) ∧
      ∃ mem', run (UnsignedTransaction.byBoxIds 1) oneDocument [.fromJson "tx" 6, .id 7, .toJson 7]
          ((Memory.empty 1 [5, 6]).boxInto 5 zeroBoxTx) = some mem' ∧
        mem'.boxes 7 = some zeroBoxTx ∧
        unsignedTxId 7 mem' = .ret (.ok (base16 zeroBoxTx.id.digest.bytes)) mem' := by
  have hrun : run (UnsignedTransaction.byBoxIds 1) oneDocument [.fromJson "tx" 5] (.empty 1 [5, 6]) =
      some ((Memory.empty 1 [5, 6]).boxInto 5 zeroBoxTx) := rfl
  have hp : ((Memory.empty 1 [5, 6]).boxInto 5 zeroBoxTx).boxes 7 = some zeroBoxTx := rfl
  have hvalid : Call.ValidRun (UnsignedTransaction.byBoxIds 1) oneDocument
      ((Memory.empty 1 [5, 6]).boxInto 5 zeroBoxTx) [.fromJson "tx" 6, .id 7, .toJson 7] :=
    ⟨.inr rfl, fun _ h => by
      cases h
      exact ⟨.inr rfl, fun _ h => by cases h; exact ⟨.inr rfl, fun _ _ => trivial⟩⟩⟩
  have hdel : Call.delete 7 ∉ [.fromJson "tx" 6, .id 7, .toJson 7] := by simp
  have hjson : ∀ json out, Call.fromJson json out ∈ [Call.fromJson "tx" 6, .id 7, .toJson 7] →
      ∀ msg, fromStr (UnsignedTransaction.byBoxIds 1) oneDocument json ≠ .error (.panic msg) := by
    intro json out hm msg hf
    simp only [List.mem_cons, Call.fromJson.injEq, List.mem_singleton, List.not_mem_nil,
      or_false] at hm
    rcases hm with ⟨rfl, -⟩ | h | h
    · cases hf
    · cases h
    · cases h
  exact ⟨hrun, hp, hvalid, hdel, hjson, run_handle_stable hrun hp hvalid hdel hjson⟩

end Steps

end Bindings

end SigmaRust
