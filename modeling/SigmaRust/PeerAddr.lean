import SigmaRust.Vlq

/-! `PeerAddr` of `ergo-chain-types/src/peer_addr.rs`: a socket address that `scorex_serialize`
writes as the four octets of its IPv4 address followed by its port as a VLQ, and `scorex_parse`
reads back. An IPv6 address is refused before anything is written. The writer appends to what was
written before and keeps it when a call fails, so "writes nothing" is a statement about its
state. `SocketAddr` and the readers and writers of `sigma_ser` are declared outside the
repository's sources; the VLQ is the one of `SigmaRust.Vlq`.

The round trip is assembled from one lemma per step: the writer's output (`scorexSerialize_v4`),
the four octets read back (`readExact_append`), the port's VLQ read back (`getU32_putU32`), and the
conversion to `u16` of a port that came from one (`u16TryFrom_toUInt32`). -/

namespace SigmaRust

/-- `Ipv4Addr`: four octets. -/
structure Ipv4Addr where
  octets : List UInt8
  length_eq : octets.length = 4

/-- `Ipv6Addr`: sixteen octets. -/
structure Ipv6Addr where
  octets : List UInt8
  length_eq : octets.length = 16

/-- `IpAddr`. -/
inductive IpAddr where
  | v4 (ip : Ipv4Addr)
  | v6 (ip : Ipv6Addr)

/-- `SocketAddrV4`. -/
structure SocketAddrV4 where
  ip : Ipv4Addr
  port : UInt16

/-- `SocketAddrV6`. -/
structure SocketAddrV6 where
  ip : Ipv6Addr
  port : UInt16
  flowinfo : UInt32
  scopeId : UInt32

/-- `SocketAddr`. -/
inductive SocketAddr where
  | v4 (a : SocketAddrV4)
  | v6 (a : SocketAddrV6)

/-- `SocketAddr::ip`. -/
def SocketAddr.ip : SocketAddr → IpAddr
  | .v4 a => .v4 a.ip
  | .v6 a => .v6 a.ip

/-- `SocketAddr::port`. -/
def SocketAddr.port : SocketAddr → UInt16
  | .v4 a => a.port
  | .v6 a => a.port

/-- `PeerAddr`. -/
structure PeerAddr where
  addr : SocketAddr

/-- `PeerAddr::ip_size`: the number of octets of the address. -/
def PeerAddr.ipSize (p : PeerAddr) : Nat :=
  match p.addr.ip with
  | .v4 ip => ip.octets.length
  | .v6 ip => ip.octets.length

/-- `ScorexSerializationError`, the variant `scorex_serialize` of a `PeerAddr` returns; a write
to the in-memory writer does not fail. -/
inductive ScorexSerializationError where
  | notSupported (msg : String)

/-- `WriteSigmaVlqExt`: a writer appending to the bytes written so far; a call that fails keeps
what it wrote. -/
abbrev ByteWriter (α : Type) := EStateM ScorexSerializationError (List UInt8) α

/-- `write_all`. -/
def writeAll (bytes : List UInt8) : ByteWriter Unit := fun written => .ok () (written ++ bytes)

/-- Modelled from the spec: `put_u32` of `sigma_ser` (not in the sources), the VLQ of the
value. -/
def putU32 (v : UInt32) : ByteWriter Unit := writeAll (putUVlq v.toNat)

/-- `ScorexSerializable::scorex_serialize` for `PeerAddr`. -/
def PeerAddr.scorexSerialize (p : PeerAddr) : ByteWriter Unit := do
  let ip ← match p.addr.ip with
    | .v4 ip => pure ip
    | _ => throw (.notSupported "ipv6 not supported")
  writeAll ip.octets
  putU32 p.addr.port.toUInt32

/-- `VlqEncodingError` of `sigma_ser`. -/
inductive VlqEncodingError where
  | io (msg : String)
  | tryFrom (msg : String)
  | vlqDecodingFailed

/-- `ScorexParsingError`, the variants `scorex_parse` of a `PeerAddr` returns. -/
inductive ScorexParsingError where
  | io (msg : String)
  | vlqEncode (e : VlqEncodingError)
  | tryFrom (msg : String)

/-- `ReadSigmaVlqExt`: a parser over the bytes left to read. -/
abbrev ScorexReader (α : Type) := StateT (List UInt8) (Except ScorexParsingError) α

/-- `read_exact` into a buffer of `n` bytes; fewer bytes left is the `Io` error of an early end. -/
def readExact (n : Nat) : ScorexReader {fa : List UInt8 // fa.length = n} := fun bytes =>
  if h : n ≤ bytes.length then .ok (⟨bytes.take n, List.length_take_of_le h⟩, bytes.drop n)
  else .error (.io "failed to fill whole buffer")

/-- The `VlqEncodingError` of a failure of the byte layer: the end of the bytes is the `Io` error
of `get_u8`, and a VLQ longer than ten bytes a failed decoding. -/
def VlqEncodingError.ofSerializationError : SerializationError → VlqEncodingError
  | .unexpectedEnd => .io "failed to fill whole buffer"
  | _ => .vlqDecodingFailed

/-- Modelled from the spec: `get_u32` of `sigma_ser` (not in the sources), `get_u64` and then the
conversion to `u32`. `get_u64` reads an overlong VLQ modulo `2 ^ 64` (`getUVlq`), so a ten-byte
VLQ whose high bits overflow is read as its low 64 bits. -/
def getU32 : ScorexReader UInt32 := fun bytes =>
  match getUVlq bytes with
  | .ok (v, rest) =>
    if v < 2 ^ 32 then .ok (v.toUInt32, rest) else .error (.vlqEncode (.tryFrom s!"{v}"))
  | .error e => .error (.vlqEncode (.ofSerializationError e))

/-- `u16::try_from` of a `u32`, with `?` into `ScorexParsingError::TryFrom`. -/
def u16TryFrom (v : UInt32) : Except ScorexParsingError UInt16 :=
  if v.toNat < 2 ^ 16 then .ok v.toNat.toUInt16
  else .error (.tryFrom "out of range integral type conversion attempted")

/-- `ScorexSerializable::scorex_parse` for `PeerAddr`. -/
def PeerAddr.scorexParse : ScorexReader PeerAddr := do
  let fa ← readExact 4
  let ip : Ipv4Addr := ⟨fa.1, fa.2⟩
  let port ← getU32
  let port ← u16TryFrom port
  return ⟨.v4 ⟨ip, port⟩⟩

theorem scorexSerialize_v4 (a : SocketAddrV4) (written : List UInt8) :
    PeerAddr.scorexSerialize ⟨.v4 a⟩ written =
      .ok () (written ++ a.ip.octets ++ putUVlq a.port.toUInt32.toNat) := rfl

theorem scorexSerialize_v6 (a : SocketAddrV6) (written : List UInt8) :
    PeerAddr.scorexSerialize ⟨.v6 a⟩ written = .error (.notSupported "ipv6 not supported") written :=
  rfl

theorem readExact_append {fa : List UInt8} {n : Nat} (h : fa.length = n) (rest : List UInt8) :
    readExact n (fa ++ rest) = .ok (⟨fa, h⟩, rest) := by
  subst h
  rw [readExact, dif_pos (by simp)]
  simp

theorem toUInt32_toNat (v : UInt32) : v.toNat.toUInt32 = v :=
  UInt32.toNat.inj (UInt32.toNat_ofNat_of_lt v.toNat_lt_size)

theorem toUInt16_toNat (v : UInt16) : v.toNat.toUInt16 = v :=
  UInt16.toNat.inj (UInt16.toNat_ofNat_of_lt v.toNat_lt_size)

theorem getU32_putU32 (v : UInt32) (rest : List UInt8) :
    getU32 (putUVlq v.toNat ++ rest) = .ok (v, rest) := by
  have hv := v.toNat_lt_size
  rw [getU32, getUVlq_putUVlq (lt_trans hv (by decide)) rest]
  simp [hv, toUInt32_toNat]

theorem u16TryFrom_toUInt32 (port : UInt16) : u16TryFrom port.toUInt32 = .ok port := by
  have hp : port.toUInt32.toNat < 2 ^ 16 := port.toNat_lt_size
  rw [u16TryFrom, if_pos hp]
  exact congrArg Except.ok (toUInt16_toNat port)

theorem scorexParse_append (a : SocketAddrV4) (rest : List UInt8) :
    PeerAddr.scorexParse (a.ip.octets ++ putUVlq a.port.toUInt32.toNat ++ rest) =
      .ok (⟨.v4 a⟩, rest) := by
  rw [List.append_assoc]
  simp only [PeerAddr.scorexParse, bind, StateT.bind, Except.bind, readExact_append a.ip.length_eq,
    getU32_putU32, u16TryFrom_toUInt32]
  rfl

theorem readExact_eq_ok {n : Nat} {bytes r : List UInt8} {fa : {fa : List UInt8 // fa.length = n}}
    (h : readExact n bytes = .ok (fa, r)) : bytes = fa.1 ++ r := by
  unfold readExact at h
  split at h
  · cases h
    exact (List.take_append_drop n bytes).symm
  · cases h

theorem u16TryFrom_eq_ok {v : UInt32} {port : UInt16} (h : u16TryFrom v = .ok port) :
    v = port.toUInt32 := by
  unfold u16TryFrom at h
  split at h
  · rename_i hv
    cases h
    exact UInt32.toNat.inj (UInt16.toNat_ofNat_of_lt hv).symm
  · cases h

/-- What `scorex_parse` accepts is four octets and a VLQ of the port: it only builds IPv4
addresses. -/
theorem scorexParse_eq_ok {bytes rest : List UInt8} {p : PeerAddr}
    (h : PeerAddr.scorexParse bytes = .ok (p, rest)) :
    ∃ a : SocketAddrV4, p = ⟨.v4 a⟩ ∧
      ∃ r, bytes = a.ip.octets ++ r ∧ getU32 r = .ok (a.port.toUInt32, rest) := by
  simp only [PeerAddr.scorexParse, bind, StateT.bind, Except.bind] at h
  rcases hfa : readExact 4 bytes with _ | ⟨fa, r⟩ <;> simp only [hfa] at h
  · cases h
  rcases hv : getU32 r with _ | ⟨v, r'⟩ <;> simp only [hv] at h
  · cases h
  rcases hport : u16TryFrom v with _ | port <;> simp only [hport] at h
  · cases h
  · cases h
    exact ⟨⟨⟨fa.1, fa.2⟩, port⟩, rfl, r, readExact_eq_ok hfa, u16TryFrom_eq_ok hport ▸ hv⟩

/-- `scorex_parse` accepts only IPv4 addresses, and whatever it accepts `scorex_serialize` writes
again, into bytes that `scorex_parse` reads back as the same `PeerAddr`. Those need not be the
bytes read: `get_u64` reads an overlong VLQ of the port modulo `2 ^ 64`, and the writer writes the
shortest VLQ. -/
theorem scorexParse_canonical {bytes rest : List UInt8} {p : PeerAddr}
    (h : PeerAddr.scorexParse bytes = .ok (p, rest)) (written rest' : List UInt8) :
    ∃ a : SocketAddrV4, p = ⟨.v4 a⟩ ∧
      PeerAddr.scorexSerialize p written =
        .ok () (written ++ a.ip.octets ++ putUVlq a.port.toUInt32.toNat) ∧
      PeerAddr.scorexParse (a.ip.octets ++ putUVlq a.port.toUInt32.toNat ++ rest') = .ok (p, rest') := by
  obtain ⟨a, rfl, -⟩ := scorexParse_eq_ok h
  exact ⟨a, rfl, scorexSerialize_v4 a written, scorexParse_append a rest'⟩

/-- `127.0.0.1:8080` with its port written as the ten-byte VLQ of `8080 + 2 ^ 64`: the port is read
as 8080, and the address is written again with the port's two-byte VLQ. -/
theorem scorexParse_overlong_port :
    PeerAddr.scorexParse [127, 0, 0, 1, 144, 191, 128, 128, 128, 128, 128, 128, 128, 2] =
      .ok (⟨.v4 ⟨⟨[127, 0, 0, 1], rfl⟩, 8080⟩⟩, []) ∧
    (∃ a : SocketAddrV4, (⟨.v4 ⟨⟨[127, 0, 0, 1], rfl⟩, 8080⟩⟩ : PeerAddr) = ⟨.v4 a⟩ ∧
      PeerAddr.scorexSerialize ⟨.v4 ⟨⟨[127, 0, 0, 1], rfl⟩, 8080⟩⟩ [] =
        .ok () ([] ++ a.ip.octets ++ putUVlq a.port.toUInt32.toNat) ∧
      PeerAddr.scorexParse (a.ip.octets ++ putUVlq a.port.toUInt32.toNat ++ []) =
        .ok (⟨.v4 ⟨⟨[127, 0, 0, 1], rfl⟩, 8080⟩⟩, [])) ∧
    PeerAddr.scorexSerialize ⟨.v4 ⟨⟨[127, 0, 0, 1], rfl⟩, 8080⟩⟩ [] = .ok () [127, 0, 0, 1, 144, 63] :=
  have h : PeerAddr.scorexParse [127, 0, 0, 1, 144, 191, 128, 128, 128, 128, 128, 128, 128, 2] =
      .ok (⟨.v4 ⟨⟨[127, 0, 0, 1], rfl⟩, 8080⟩⟩, []) := rfl
  ⟨h, scorexParse_canonical h [] [], rfl⟩

/-- A `PeerAddr` of an IPv4 address, any octets and any port, is read back from what
`scorex_serialize` writes for it, and what follows is left unread; one of an IPv6 address is
refused with `NotSupported` before anything is written. -/
theorem scorex_round_trip :
    (∀ (a : SocketAddrV4) (written rest : List UInt8), ∃ bytes,
      PeerAddr.scorexSerialize ⟨.v4 a⟩ written = .ok () (written ++ bytes) ∧
      PeerAddr.scorexParse (bytes ++ rest) = .ok (⟨.v4 a⟩, rest)) ∧
    (∀ (a : SocketAddrV6) (written : List UInt8),
      PeerAddr.scorexSerialize ⟨.v6 a⟩ written = .error (.notSupported "ipv6 not supported") written) :=
  ⟨fun a written rest =>
    ⟨_, by rw [scorexSerialize_v4, List.append_assoc], scorexParse_append a rest⟩,
    scorexSerialize_v6⟩

end SigmaRust
