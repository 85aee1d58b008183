import SigmaRust.Codec

/-! What the expression parser accepts. Whatever the bytes and whatever the reader's constant
table, a tree that `Expr::sigma_parse` returns is well typed, was read from a prefix of the bytes
(the rest is what follows), and can be written again. The depth limit decides nothing else: the
same bytes give the same tree at every limit from the tree's depth on, and `DepthExceeded` below
it. With the round trip of the codec, the tree the parser returns is read back, unchanged, from
what it writes; the bytes of a tree are read back as that tree exactly when it is well typed; and
the encoding is prefix-free. -/

namespace SigmaRust

open ByteReader

theorem Expr.checkTypes_eq_ok {node e : Expr} {bytes rest : List UInt8}
    (h : Expr.checkTypes node bytes = .ok (e, rest)) : node.nodeTypesOk = true ∧ e = node := by
  unfold Expr.checkTypes at h
  split at h
  · cases h
    exact ⟨‹_›, rfl⟩
  · cases h

theorem BinOpKind.opCode_of_ofOpCode {code : UInt8} {kind : BinOpKind}
    (h : BinOpKind.ofOpCode code = some kind) : code = kind.opCode.value := by
  unfold BinOpKind.ofOpCode at h
  have hp := List.find?_some h
  exact (of_decide_eq_true hp).symm

/-- What one level of the parser reads: an inline constant, a placeholder the table resolves, or
an `If` or a binary operation whose payload is read one level down and whose types check. -/
theorem Expr.sigmaParse_succ_cases {store : ConstantStore} {n : Nat} {bytes rest : List UInt8}
    {e : Expr} (h : Expr.sigmaParse store (n + 1) bytes = .ok (e, rest)) :
    ∃ code r, bytes = code :: r ∧
      ((code ≤ OpCode.lastConstantCode ∧ ∃ c, Constant.sigmaParse (code :: r) = .ok (c, rest) ∧
          e = .const c) ∨
        (code = OpCode.constantPlaceholder.value ∧ ∃ id c, getUVlq r = .ok (id, rest) ∧
          store.get id = some c ∧ e = .const c) ∨
        (code = OpCode.if.value ∧ e.nodeTypesOk = true ∧
          If.sigmaParse (Expr.sigmaParse store n) r = .ok (e, rest)) ∨
        (∃ kind, code = kind.opCode.value ∧ e.nodeTypesOk = true ∧
          BinOp.sigmaParse (Expr.sigmaParse store n) kind r = .ok (e, rest))) := by
  obtain ⟨code, b, hpeek, h⟩ := bind_eq_ok.mp h
  cases bytes with
  | nil => cases hpeek
  | cons b' r =>
  cases hpeek
  refine ⟨code, r, rfl, ?_⟩
  split at h
  · -- an inline constant
    obtain ⟨c, r', hc, h⟩ := bind_eq_ok.mp h
    cases h
    exact .inl ⟨‹_›, c, hc, rfl⟩
  obtain ⟨_, r', hget, h⟩ := bind_eq_ok.mp h
  cases hget
  split at h
  · -- a placeholder
    obtain ⟨id, r'', hid, h⟩ := bind_eq_ok.mp h
    cases hc : store.get id with
    | none => simp only [hc] at h; cases h
    | some c =>
      simp only [hc] at h
      cases h
      exact .inr (.inl ⟨‹_›, id, c, hid, hc, rfl⟩)
  split at h
  · -- an `If`
    obtain ⟨node, r'', hnode, h⟩ := bind_eq_ok.mp h
    obtain ⟨hn, rfl⟩ := Expr.checkTypes_eq_ok h
    have : r'' = rest := by unfold Expr.checkTypes at h; rw [if_pos hn] at h; cases h; rfl
    subst this
    exact .inr (.inr (.inl ⟨‹_›, hn, hnode⟩))
  cases hk : BinOpKind.ofOpCode code with
  | none => simp only [hk] at h; cases h
  | some kind =>
    -- a binary operation
    simp only [hk] at h
    obtain ⟨node, r'', hnode, h⟩ := bind_eq_ok.mp h
    obtain ⟨hn, rfl⟩ := Expr.checkTypes_eq_ok h
    have : r'' = rest := by unfold Expr.checkTypes at h; rw [if_pos hn] at h; cases h; rfl
    subst this
    exact .inr (.inr (.inr ⟨kind, BinOpKind.opCode_of_ofOpCode hk, hn, hnode⟩))

/-- The depth limit only cuts a parse short: bytes that a parse of some limit reads as a tree are
read as the same tree, with the same rest, by every limit at least the tree's depth, and every
lower limit fails with `DepthExceeded`. -/
theorem Expr.sigmaParse_limit (store : ConstantStore) : ∀ (n : Nat) {bytes rest : List UInt8}
    {e : Expr}, Expr.sigmaParse store n bytes = .ok (e, rest) → ∀ m,
      Expr.sigmaParse store m bytes = if e.depth ≤ m then .ok (e, rest) else .error .depthExceeded
  | 0, _, _, _, h, _ => by cases h
  | n + 1, _, _, e, _, 0 => Expr.sigmaParse_zero store e _ _
  | n + 1, _, _, _, h, m + 1 => by
    obtain ⟨code, r, rfl, hk⟩ := Expr.sigmaParse_succ_cases h
    rcases hk with ⟨hle, c, hc, rfl⟩ | ⟨rfl, id, c, hid, hget, rfl⟩ | ⟨rfl, hn, hif⟩ |
      ⟨kind, rfl, hn, hbin⟩
    · -- an inline constant
      rw [Expr.sigmaParse_succ_of_le hle, bind_of_ok hc,
        if_pos (show (Expr.const c).depth ≤ m + 1 from Nat.succ_le_succ (Nat.zero_le m))]
      rfl
    · -- a placeholder
      rw [Expr.sigmaParse_succ_placeholder, bind_of_ok hid, hget,
        if_pos (show (Expr.const c).depth ≤ m + 1 from Nat.succ_le_succ (Nat.zero_le m))]
      rfl
    · -- an `If`
      obtain ⟨c, t, f, r₁, r₂, hc, ht, hf, rfl⟩ := If.sigmaParse_eq_ok hif
      rw [Expr.sigmaParse_succ_if, Expr.bind_checkTypes (If.sigmaParse_ite
        (Expr.sigmaParse_limit store n hc m) (Expr.sigmaParse_limit store n ht m)
        (Expr.sigmaParse_limit store n hf m)) hn]
      exact if_congr Expr.depth_ifOp_le.symm rfl rfl
    · -- a binary operation
      obtain ⟨l, rt, r₁, hl, hr, rfl⟩ := BinOp.sigmaParse_eq_ok hbin
      rw [Expr.sigmaParse_succ_binOp, Expr.bind_checkTypes (BinOp.sigmaParse_ite
        (Expr.sigmaParse_limit store n hl m) (Expr.sigmaParse_limit store n hr m)) hn]
      exact if_congr Expr.depth_binOp_le.symm rfl rfl

/-- The bytes of `If(true, 5L, -300L)`, with the condition's payload byte 2 and the second branch
a placeholder of the table holding `5L`, read at depth 2: a parse of depth 1 fails with
`DepthExceeded` and one of depth 5 reads the same tree. -/
theorem if_tree_limits :
    Expr.sigmaParse longFiveStore 2 [149, 1, 2, 113, 0, 5, 215, 4, 149] =
      .ok (.ifOp (.const ⟨.sBoolean, .boolean true⟩) (.const ⟨.sLong, .long ⟨5, by decide⟩⟩)
        (.const ⟨.sLong, .long ⟨-300, by decide⟩⟩), [149]) ∧
    Expr.sigmaParse longFiveStore 1 [149, 1, 2, 113, 0, 5, 215, 4, 149] = .error .depthExceeded ∧
    Expr.sigmaParse longFiveStore 5 [149, 1, 2, 113, 0, 5, 215, 4, 149] =
      .ok (.ifOp (.const ⟨.sBoolean, .boolean true⟩) (.const ⟨.sLong, .long ⟨5, by decide⟩⟩)
        (.const ⟨.sLong, .long ⟨-300, by decide⟩⟩), [149]) := by
  have h : Expr.sigmaParse longFiveStore 2 [149, 1, 2, 113, 0, 5, 215, 4, 149] =
      .ok (.ifOp (.const ⟨.sBoolean, .boolean true⟩) (.const ⟨.sLong, .long ⟨5, by decide⟩⟩)
        (.const ⟨.sLong, .long ⟨-300, by decide⟩⟩), [149]) := rfl
  exact ⟨h, (Expr.sigmaParse_limit longFiveStore 2 h 1).trans (if_neg (by decide)),
    (Expr.sigmaParse_limit longFiveStore 2 h 5).trans (if_pos (by decide))⟩

theorem Expr.sigmaSerialize_ifOp_of_ok {c t f : Expr} {oc ot of : List UInt8}
    (hc : c.sigmaSerialize = .ok oc) (ht : t.sigmaSerialize = .ok ot)
    (hf : f.sigmaSerialize = .ok of) :
    (Expr.ifOp c t f).sigmaSerialize = .ok (OpCode.if.value :: (oc ++ ot ++ of)) := by
  rw [Expr.sigmaSerialize, Expr.sigmaSerializeWith_ifOp,
    If.sigmaSerialize_eq (show Expr.sigmaSerializeWith .empty c = .ok oc from hc) ht hf]
  rfl

theorem Expr.sigmaSerialize_binOp_of_ok {kind : BinOpKind} {l r : Expr} {ol or : List UInt8}
    (hl : l.sigmaSerialize = .ok ol) (hr : r.sigmaSerialize = .ok or) :
    (Expr.binOp kind l r).sigmaSerialize = .ok (kind.opCode.value :: (ol ++ or)) := by
  rw [Expr.sigmaSerialize, Expr.sigmaSerializeWith_binOp]
  simp only [BinOp.sigmaSerialize, show Expr.sigmaSerializeWith .empty l = .ok ol from hl,
    show Expr.sigmaSerializeWith .empty r = .ok or from hr]
  rfl

/-- Whatever the bytes and the table, a tree the parser returns is well typed and can be written
again, and was read from a prefix of the bytes. -/
theorem Expr.sound_sigmaParse (store : ConstantStore) :
    ∀ n, Sound (fun e => e.WellTyped ∧ ∃ out, e.sigmaSerialize = .ok out) (Expr.sigmaParse store n)
  | 0 => Sound.throw _
  | n + 1 => fun _ _ _ h => by
    obtain ⟨code, r, rfl, hk⟩ := Expr.sigmaParse_succ_cases h
    rcases hk with ⟨-, c, hc, rfl⟩ | ⟨rfl, id, c, hid, hget, rfl⟩ | ⟨rfl, hn, hif⟩ |
      ⟨kind, rfl, hn, hbin⟩
    · -- an inline constant
      obtain ⟨⟨hct, b, hb⟩, consumed, heq⟩ := Constant.sound_sigmaParse _ _ _ hc
      exact ⟨⟨.const hct, b, hb⟩, consumed, heq⟩
    · -- a placeholder
      obtain ⟨-, consumed, rfl⟩ := Sound.getUVlq _ _ _ hid
      obtain ⟨hct, b, hb⟩ := ConstantStore.wellFormed_of_get hget
      exact ⟨⟨.const hct, b, hb⟩, _ :: consumed, rfl⟩
    · -- an `If`
      obtain ⟨c, t, f, r₁, r₂, hc, ht, hf, rfl⟩ := If.sigmaParse_eq_ok hif
      obtain ⟨⟨hwc, oc, hoc⟩, cc, rfl⟩ := Expr.sound_sigmaParse store n _ _ _ hc
      obtain ⟨⟨hwt, ot, hot⟩, ct, rfl⟩ := Expr.sound_sigmaParse store n _ _ _ ht
      obtain ⟨⟨hwf, of, hof⟩, cf, rfl⟩ := Expr.sound_sigmaParse store n _ _ _ hf
      exact ⟨⟨Expr.wellTyped_ifOp_iff.mpr ⟨hwc, hwt, hwf, hn⟩, _,
        Expr.sigmaSerialize_ifOp_of_ok hoc hot hof⟩,
        OpCode.if.value :: (cc ++ ct ++ cf), by simp only [List.cons_append, List.append_assoc]⟩
    · -- a binary operation
      obtain ⟨l, rt, r₁, hl, hr, rfl⟩ := BinOp.sigmaParse_eq_ok hbin
      obtain ⟨⟨hwl, ol, hol⟩, cl, rfl⟩ := Expr.sound_sigmaParse store n _ _ _ hl
      obtain ⟨⟨hwr, or, hor⟩, cr, rfl⟩ := Expr.sound_sigmaParse store n _ _ _ hr
      exact ⟨⟨Expr.wellTyped_binOp_iff.mpr ⟨hwl, hwr, hn⟩, _, Expr.sigmaSerialize_binOp_of_ok hol hor⟩,
        kind.opCode.value :: (cl ++ cr), by simp only [List.cons_append, List.append_assoc]⟩

theorem Expr.depth_le_of_sigmaParse {store : ConstantStore} {n : Nat} {bytes rest : List UInt8}
    {e : Expr} (h : Expr.sigmaParse store n bytes = .ok (e, rest)) : e.depth ≤ n := by
  by_contra hd
  have hn := Expr.sigmaParse_limit store n h n
  rw [if_neg hd, h] at hn
  cases hn

/-- A tree the parser accepts is well typed and is a fixed point of writing and reading: written
again, inline, it is read back unchanged by a parse of the same depth limit and table, whatever
follows it. The bytes written need not be the bytes read: a placeholder is written inline, and a
boolean is read from any byte and written as 0 or 1. -/
theorem Expr.sigmaParse_accepts {store : ConstantStore} {n : Nat} {bytes rest : List UInt8}
    {e : Expr} (h : Expr.sigmaParse store n bytes = .ok (e, rest)) :
    e.WellTyped ∧ e.depth ≤ n ∧ (∃ consumed, bytes = consumed ++ rest) ∧
      ∃ out, e.sigmaSerialize = .ok out ∧
        ∀ rest', Expr.sigmaParse store n (out ++ rest') = .ok (e, rest') := by
  obtain ⟨⟨hwt, out, hout⟩, hprefix⟩ := Expr.sound_sigmaParse store n _ _ _ h
  have hdepth := Expr.depth_le_of_sigmaParse h
  exact ⟨hwt, hdepth, hprefix, out, hout, fun rest' =>
    (Expr.sigmaParse_append_serialize List.nil_prefix hwt n hout rest').trans (if_pos hdepth)⟩

/-- `If(true, 5L, -300L)` read with its condition's payload byte 2 and its second branch a
placeholder is written inline with payload byte 1, and those bytes are read back as the same
tree. -/
theorem if_tree_noncanonical_accepted :
    Expr.sigmaParse longFiveStore 2 [149, 1, 2, 113, 0, 5, 215, 4, 149] =
      .ok (.ifOp (.const ⟨.sBoolean, .boolean true⟩) (.const ⟨.sLong, .long ⟨5, by decide⟩⟩)
        (.const ⟨.sLong, .long ⟨-300, by decide⟩⟩), [149]) ∧
    (Expr.ifOp (.const ⟨.sBoolean, .boolean true⟩) (.const ⟨.sLong, .long ⟨5, by decide⟩⟩)
      (.const ⟨.sLong, .long ⟨-300, by decide⟩⟩)).WellTyped ∧
    (Expr.ifOp (.const ⟨.sBoolean, .boolean true⟩) (.const ⟨.sLong, .long ⟨5, by decide⟩⟩)
      (.const ⟨.sLong, .long ⟨-300, by decide⟩⟩)).depth ≤ 2 ∧
    (∃ consumed : List UInt8, [149, 1, 2, 113, 0, 5, 215, 4, 149] = consumed ++ [149]) ∧
    ∃ out, (Expr.ifOp (.const ⟨.sBoolean, .boolean true⟩)
      (.const ⟨.sLong, .long ⟨5, by decide⟩⟩)
      (.const ⟨.sLong, .long ⟨-300, by decide⟩⟩)).sigmaSerialize = .ok out ∧
      ∀ rest', Expr.sigmaParse longFiveStore 2 (out ++ rest') =
        .ok (.ifOp (.const ⟨.sBoolean, .boolean true⟩) (.const ⟨.sLong, .long ⟨5, by decide⟩⟩)
          (.const ⟨.sLong, .long ⟨-300, by decide⟩⟩), rest') :=
  ⟨rfl, Expr.sigmaParse_accepts rfl⟩

/-- Type checking decides the round trip: the bytes of any tree, written with a table and followed
by anything, are read back as that tree by a reader whose table extends the writer's exactly when
the tree is well typed and the depth limit allows it. The writer checks no type, so an ill-typed
tree is written, but is never read back. -/
theorem Expr.sigmaParse_serialized_iff {w r : ConstantStore} (hwr : w.constants <+: r.constants)
    {e : Expr} {bytes : List UInt8} (h : e.sigmaSerializeWith w = .ok bytes) (n : Nat)
    (rest : List UInt8) :
    Expr.sigmaParse r n (bytes ++ rest) = .ok (e, rest) ↔ e.WellTyped ∧ e.depth ≤ n := by
  constructor
  · intro hp
    exact ⟨(Expr.sound_sigmaParse r n _ _ _ hp).1.1, Expr.depth_le_of_sigmaParse hp⟩
  · rintro ⟨hwt, hdepth⟩
    exact (Expr.sigmaParse_append_serialize hwr hwt n h rest).trans (if_pos hdepth)

/-- `If(5L, true, false)`, whose condition is not boolean, is written, and its bytes are rejected
with `TypeMismatch`. -/
theorem ill_typed_if_serializes :
    (Expr.ifOp (.const ⟨.sLong, .long ⟨5, by decide⟩⟩) (.const ⟨.sBoolean, .boolean true⟩)
      (.const ⟨.sBoolean, .boolean false⟩)).sigmaSerialize = .ok [149, 5, 10, 1, 1, 1, 0] ∧
    (Expr.sigmaParse .empty 2 ([149, 5, 10, 1, 1, 1, 0] ++ []) =
        .ok (.ifOp (.const ⟨.sLong, .long ⟨5, by decide⟩⟩) (.const ⟨.sBoolean, .boolean true⟩)
          (.const ⟨.sBoolean, .boolean false⟩), []) ↔
      (Expr.ifOp (.const ⟨.sLong, .long ⟨5, by decide⟩⟩) (.const ⟨.sBoolean, .boolean true⟩)
        (.const ⟨.sBoolean, .boolean false⟩)).WellTyped ∧
      (Expr.ifOp (.const ⟨.sLong, .long ⟨5, by decide⟩⟩) (.const ⟨.sBoolean, .boolean true⟩)
        (.const ⟨.sBoolean, .boolean false⟩)).depth ≤ 2) ∧
    Expr.sigmaParse .empty 2 [149, 5, 10, 1, 1, 1, 0] = .error .typeMismatch :=
  have h : (Expr.ifOp (.const ⟨.sLong, .long ⟨5, by decide⟩⟩) (.const ⟨.sBoolean, .boolean true⟩)
      (.const ⟨.sBoolean, .boolean false⟩)).sigmaSerialize = .ok [149, 5, 10, 1, 1, 1, 0] := rfl
  ⟨h, Expr.sigmaParse_serialized_iff List.nil_prefix h 2 [], rfl⟩

/-- The encoding of well-typed trees is prefix-free: the serializations of two trees, each
followed by something, make the same bytes exactly when the trees, their bytes and what follows
are the same. So a stream of serialized trees splits in one way only. -/
theorem Expr.sigmaSerialize_prefix_free {e₁ e₂ : Expr} (h₁ : e₁.WellTyped) (h₂ : e₂.WellTyped)
    {b₁ b₂ : List UInt8} (hs₁ : e₁.sigmaSerialize = .ok b₁) (hs₂ : e₂.sigmaSerialize = .ok b₂)
    (r₁ r₂ : List UInt8) : b₁ ++ r₁ = b₂ ++ r₂ ↔ e₁ = e₂ ∧ b₁ = b₂ ∧ r₁ = r₂ := by
  constructor
  · intro heq
    have hp₁ := (Expr.sigmaParse_append_serialize (List.prefix_refl ConstantStore.empty.constants)
      h₁ (max e₁.depth e₂.depth) hs₁ r₁).trans (if_pos (le_max_left _ _))
    have hp₂ := (Expr.sigmaParse_append_serialize (List.prefix_refl ConstantStore.empty.constants)
      h₂ (max e₁.depth e₂.depth) hs₂ r₂).trans (if_pos (le_max_right _ _))
    rw [heq, hp₂] at hp₁
    obtain ⟨rfl, rfl⟩ := Prod.mk.inj (Except.ok.inj hp₁)
    exact ⟨rfl, List.append_cancel_right heq, rfl⟩
  · rintro ⟨rfl, rfl, rfl⟩
    rfl

/-- The stream of `true` then `If(true, 5L, -300L)` is not the stream of the same two trees in
the other order. -/
theorem bool_if_streams_differ :
    (Expr.const ⟨.sBoolean, .boolean true⟩).WellTyped ∧
    (Expr.ifOp (.const ⟨.sBoolean, .boolean true⟩) (.const ⟨.sLong, .long ⟨5, by decide⟩⟩)
      (.const ⟨.sLong, .long ⟨-300, by decide⟩⟩)).WellTyped ∧
    (Expr.const ⟨.sBoolean, .boolean true⟩).sigmaSerialize = .ok [1, 1] ∧
    (Expr.ifOp (.const ⟨.sBoolean, .boolean true⟩) (.const ⟨.sLong, .long ⟨5, by decide⟩⟩)
      (.const ⟨.sLong, .long ⟨-300, by decide⟩⟩)).sigmaSerialize =
        .ok [149, 1, 1, 5, 10, 5, 215, 4] ∧
    (([1, 1] ++ [149, 1, 1, 5, 10, 5, 215, 4] : List UInt8) = [149, 1, 1, 5, 10, 5, 215, 4] ++ [1, 1] ↔
      Expr.const ⟨.sBoolean, .boolean true⟩ = Expr.ifOp (.const ⟨.sBoolean, .boolean true⟩)
        (.const ⟨.sLong, .long ⟨5, by decide⟩⟩) (.const ⟨.sLong, .long ⟨-300, by decide⟩⟩) ∧
      ([1, 1] : List UInt8) = [149, 1, 1, 5, 10, 5, 215, 4] ∧
      ([149, 1, 1, 5, 10, 5, 215, 4] : List UInt8) = [1, 1]) := by
  have h₁ : (Expr.const ⟨.sBoolean, .boolean true⟩).WellTyped := .const rfl
  have h₂ : (Expr.ifOp (.const ⟨.sBoolean, .boolean true⟩) (.const ⟨.sLong, .long ⟨5, by decide⟩⟩)
      (.const ⟨.sLong, .long ⟨-300, by decide⟩⟩)).WellTyped :=
    .ifOp (.const rfl) (.const rfl) (.const rfl) rfl rfl
  have hs₁ : (Expr.const ⟨.sBoolean, .boolean true⟩).sigmaSerialize = .ok [1, 1] := rfl
  have hs₂ : (Expr.ifOp (.const ⟨.sBoolean, .boolean true⟩) (.const ⟨.sLong, .long ⟨5, by decide⟩⟩)
      (.const ⟨.sLong, .long ⟨-300, by decide⟩⟩)).sigmaSerialize =
        .ok [149, 1, 1, 5, 10, 5, 215, 4] := rfl
  exact ⟨h₁, h₂, hs₁, hs₂, Expr.sigmaSerialize_prefix_free h₁ h₂ hs₁ hs₂ _ _⟩

end SigmaRust
