import Mathlib.Data.Nat.Digits
import SigmaRust.PeerAddr
import SigmaRust.Result

/-! `PeerAddr::as_http_url` writes `http://`, the `Display` text of the peer's IP address, a colon
and the port in decimal, and unwraps `Url::from_str` of that text. `url`'s parser ends the host of
a special URL at the first colon outside brackets and then reads the port as a run of digits, which
must end the authority. std writes an IPv6 address without brackets (`::1`, `fe80::1`), and every
such text has a colon, so the parser's host stops inside the address and the port it reads then
meets a colon: `Url::from_str` returns `EmptyHost` or `InvalidPort`, whatever `Host::parse` makes
of the part before, and `as_http_url` panics on every IPv6 peer. An IPv4 address is four decimal
numbers and dots: the host is all of it, and the port is read back as the peer's.

`Host::parse` (IDNA and the IPv4 number syntax of the URL standard) is a parameter: nothing here
depends on what it accepts. The parser is modelled from `Url::from_str` on a text that starts with
`http:`, which is what `as_http_url` gives it; its path, query and fragment states never fail and
are not modelled. -/

namespace SigmaRust

/-! ### std's `Display` for IP addresses -/

/-- The texts of `items` separated by `sep`, as `write!` writes the first item and then a separator
before each of the others. -/
def joinWith {α : Type} (sep : Char) (text : α → List Char) : List α → List Char
  | [] => []
  | first :: tail => text first ++ tail.flatMap fun item => sep :: text item

/-- `Display for Ipv4Addr`: the four octets in decimal, separated by dots. -/
def Ipv4Addr.display (ip : Ipv4Addr) : List Char :=
  joinWith '.' (fun o : UInt8 => Nat.toDigits 10 o.toNat) ip.octets

/-- Two octets at a time, the high one first. -/
def groups16 : List UInt8 → List Nat
  | hi :: lo :: rest => (hi.toNat * 256 + lo.toNat) :: groups16 rest
  | _ => []

/-- `Ipv6Addr::segments`: the eight 16-bit groups. -/
def Ipv6Addr.segments (ip : Ipv6Addr) : List Nat := groups16 ip.octets

/-- `Ipv6Addr::to_ipv4_mapped`: the last four octets, when the first twelve are
`0, …, 0, 0xff, 0xff`. -/
def Ipv6Addr.toIpv4Mapped (ip : Ipv6Addr) : Option Ipv4Addr :=
  if ip.octets.take 12 = [0, 0, 0, 0, 0, 0, 0, 0, 0, 0, 0xff, 0xff] then
    some ⟨ip.octets.drop 12, by rw [List.length_drop, ip.length_eq]⟩
  else none

/-- The `zeroes` loop of `Display for Ipv6Addr`: the longest run of zero groups, the first of the
longest, as `(start, len)`; `current` is the run the loop is in. -/
def zeroSpan : List Nat → Nat → Nat × Nat → Nat × Nat → Nat × Nat
  | [], _, longest, _ => longest
  | s :: rest, i, longest, current =>
    if s = 0 then
      let current := (if current.2 = 0 then i else current.1, current.2 + 1)
      zeroSpan rest (i + 1) (if longest.2 < current.2 then current else longest) current
    else zeroSpan rest (i + 1) longest (0, 0)

/-- `fmt_subslice`: the groups in lower-case hexadecimal, separated by colons. -/
def fmtSubslice : List Nat → List Char := joinWith ':' (Nat.toDigits 16)

/-- `Display for Ipv6Addr`: an IPv4-mapped address as `::ffff:` and its dotted quad; otherwise the
groups, with the longest run of two or more zero groups written `::`. -/
def Ipv6Addr.display (ip : Ipv6Addr) : List Char :=
  match ip.toIpv4Mapped with
  | some v4 => "::ffff:".toList ++ v4.display
  | none =>
    let segments := ip.segments
    let zeroes := zeroSpan segments 0 (0, 0) (0, 0)
    if 1 < zeroes.2 then
      fmtSubslice (segments.take zeroes.1) ++ "::".toList ++
        fmtSubslice (segments.drop (zeroes.1 + zeroes.2))
    else fmtSubslice segments

/-- `Display for IpAddr`. -/
def IpAddr.display : IpAddr → List Char
  | .v4 ip => ip.display
  | .v6 ip => ip.display

/-! ### `url`'s parser on `http:` -/

/-- `url::ParseError`, with the variants a special URL's authority and `Host::parse` return. -/
inductive UrlParseError where
  | emptyHost
  | idnaError
  | invalidPort
  | invalidIpv4Address
  | invalidIpv6Address
  | invalidDomainCharacter
deriving DecidableEq

/-- `url::Url`, as far as its parse is modelled: the host, the port unless it is the scheme's
default, and the text the path, query and fragment states read. -/
structure Url (H : Type) where
  host : H
  port : Option UInt16
  rest : List Char

namespace Url

/-- The characters that end the authority of a special URL. -/
def isAuthorityEnd (c : Char) : Bool := c = '/' || c = '\\' || c = '?' || c = '#'

/-- `Parser::parse_userinfo`: the text after the last `@` before the authority's end, or the whole
text when there is none; a lone `@` followed by the authority's end is `EmptyHost`. -/
def parseUserinfo (input : List Char) : Except UrlParseError (List Char) :=
  let authority := input.takeWhile fun c => !isAuthorityEnd c
  if '@' ∈ authority then
    let lastAt := authority.length - 1 - authority.reverse.indexOf '@'
    let remaining := input.drop (lastAt + 1)
    if lastAt = 0 ∧ remaining.head?.map isAuthorityEnd = some true then .error .emptyHost
    else .ok remaining
  else .ok input

/-- The scan of `Parser::parse_host`: the host runs to the first `:` outside brackets or to the
authority's end. -/
def hostEnd : Bool → List Char → List Char × List Char
  | _, [] => ([], [])
  | insideBrackets, c :: rest =>
    if (c = ':' && !insideBrackets) || isAuthorityEnd c then ([], c :: rest)
    else
      let (host, remaining) :=
        hostEnd (if c = '[' then true else if c = ']' then false else insideBrackets) rest
      (c :: host, remaining)

/-- `Parser::parse_port`: a run of decimal digits up to 65535, which ends the input or stops at the
authority's end; the port is none without a digit. -/
def parsePort : Nat → Bool → List Char → Except UrlParseError (Option Nat × List Char)
  | port, anyDigit, [] => .ok (if anyDigit then some port else none, [])
  | port, anyDigit, c :: rest =>
    if c.isDigit then
      let port := port * 10 + (c.toNat - '0'.toNat)
      if 65535 < port then .error .invalidPort else parsePort port true rest
    else if isAuthorityEnd c then .ok (if anyDigit then some port else none, c :: rest)
    else .error .invalidPort

variable {H : Type} (hostParse : List Char → Except UrlParseError H)

/-- `Parser::parse_host` for a special scheme other than `file`: an empty host is `EmptyHost`, any
other goes to `Host::parse`. -/
def parseHost (input : List Char) : Except UrlParseError (H × List Char) :=
  let (hostStr, remaining) := hostEnd false input
  if hostStr = [] then .error .emptyHost
  else (hostParse hostStr).map fun host => (host, remaining)

/-- `Parser::parse_host_and_port` for `http`, whose default port is 80. -/
def parseHostAndPort (input : List Char) : Except UrlParseError (H × Option UInt16 × List Char) := do
  let (host, remaining) ← parseHost hostParse input
  match remaining with
  | ':' :: remaining =>
    let (port, remaining) ← parsePort 0 false remaining
    pure (host, port.bind fun p => if p = 80 then none else some p.toUInt16, remaining)
  | _ => pure (host, none, remaining)

/-- `Parser::after_double_slash`: the user info, then the host and port. -/
def afterDoubleSlash (input : List Char) : Except UrlParseError (Url H) := do
  let remaining ← parseUserinfo input
  let (host, port, remaining) ← parseHostAndPort hostParse remaining
  pure ⟨host, port, remaining⟩

/-- `Url::from_str` on `http:` followed by `afterScheme`: the special authority states skip every
slash and backslash before the authority. -/
def parseHttp (afterScheme : List Char) : Except UrlParseError (Url H) :=
  afterDoubleSlash hostParse (afterScheme.dropWhile fun c => c = '/' || c = '\\')

end Url

/-- `PeerAddr::as_http_url`: `Url::from_str` of `http://{ip}:{port}`, unwrapped. -/
def PeerAddr.asHttpUrl {H : Type} (hostParse : List Char → Except UrlParseError H) (p : PeerAddr) :
    Except (Stop Empty) (Url H) :=
  unwrap (Url.parseHttp hostParse
    ("//".toList ++ p.addr.ip.display ++ ':' :: Nat.toDigits 10 p.addr.port.toNat))

/-- `NodeConf`, with the field `get_peers_all` reads before its request. -/
structure NodeConf where
  addr : PeerAddr

/-- The URL `get_peers_all` requests: `node.addr.as_http_url().join("peers/all").unwrap()`, with
`Url::join` (outside the repository) a parameter. The asynchronous request itself is left out. -/
def getPeersAllUrl {H : Type} (hostParse : List Char → Except UrlParseError H)
    (join : Url H → List Char → Except UrlParseError (Url H)) (node : NodeConf) :
    Except (Stop Empty) (Url H) := do
  let base ← PeerAddr.asHttpUrl hostParse node.addr
  unwrap (join base "peers/all".toList)

/-! ### The characters of the texts -/

/-- The characters of an IP address's text: colons, dots and lower-case hexadecimal digits. -/
def ipChars : List Char := ":.0123456789abcdef".toList

/-- None of them ends an authority, starts user info or opens or closes brackets. -/
theorem ipChars_plain : ∀ c ∈ ipChars, Url.isAuthorityEnd c = false ∧ c ≠ '@' ∧ c ≠ '[' ∧
    c ≠ ']' ∧ (decide (c = '/') || decide (c = '\\')) = false := by
  decide

theorem toDigitsCore_mem {b : Nat} (hb : 0 < b) {c : Char} :
    ∀ fuel n ds, c ∈ Nat.toDigitsCore b fuel n ds → c ∈ ds ∨ ∃ d < b, c = Nat.digitChar d
  | 0, _, _, h => .inl h
  | fuel + 1, n, ds, h => by
    have hcons (h : c ∈ Nat.digitChar (n % b) :: ds) : c ∈ ds ∨ ∃ d < b, c = Nat.digitChar d :=
      (List.mem_cons.mp h).elim (fun h => .inr ⟨_, Nat.mod_lt _ hb, h⟩) .inl
    simp only [Nat.toDigitsCore] at h
    split at h
    · exact hcons h
    · exact (toDigitsCore_mem hb fuel _ _ h).elim hcons .inr

theorem mem_toDigits {b n : Nat} (hb : 0 < b) {c : Char} (h : c ∈ Nat.toDigits b n) :
    ∃ d < b, c = Nat.digitChar d :=
  (toDigitsCore_mem hb _ _ _ h).resolve_left (List.not_mem_nil c)

theorem toDigits_decimal_mem {n : Nat} {c : Char} (h : c ∈ Nat.toDigits 10 n) :
    c ∈ "0123456789".toList := by
  obtain ⟨d, hd, rfl⟩ := mem_toDigits (by decide) h
  exact (by decide : ∀ d < 10, Nat.digitChar d ∈ "0123456789".toList) d hd

theorem toDigits_hex_mem {n : Nat} {c : Char} (h : c ∈ Nat.toDigits 16 n) : c ∈ ipChars := by
  obtain ⟨d, hd, rfl⟩ := mem_toDigits (by decide) h
  exact (by decide : ∀ d < 16, Nat.digitChar d ∈ ipChars) d hd

theorem decimal_mem_ipChars {c : Char} (h : c ∈ "0123456789".toList) : c ∈ ipChars := by
  revert c
  decide

/-- Two texts of IP characters joined by a colon are one. -/
theorem ipChars_colon_append {d port : List Char} (hd : ∀ c ∈ d, c ∈ ipChars)
    (hport : ∀ c ∈ port, c ∈ ipChars) : ∀ c ∈ d ++ ':' :: port, c ∈ ipChars := by
  simp only [List.mem_append, List.mem_cons]
  rintro c (h | h | h)
  exacts [hd c h, h ▸ by decide, hport c h]

theorem mem_joinWith {α : Type} {sep c : Char} {text : α → List Char} {items : List α}
    (h : c ∈ joinWith sep text items) : c = sep ∨ ∃ x ∈ items, c ∈ text x := by
  cases items with
  | nil => cases h
  | cons first tail =>
    rcases List.mem_append.mp h with h | h
    · exact .inr ⟨first, List.mem_cons_self _ _, h⟩
    · obtain ⟨x, hx, h⟩ := List.mem_flatMap.mp h
      exact (List.mem_cons.mp h).imp_right fun h => ⟨x, List.mem_cons_of_mem _ hx, h⟩

theorem sep_mem_joinWith {α : Type} (sep : Char) (text : α → List Char) (x y : α) (rest : List α) :
    sep ∈ joinWith sep text (x :: y :: rest) := by
  simp [joinWith]

/-- A dotted quad is decimal digits and dots. -/
theorem Ipv4Addr.mem_display {ip : Ipv4Addr} {c : Char} (h : c ∈ ip.display) :
    c ∈ ".0123456789".toList := by
  rcases mem_joinWith h with rfl | ⟨_, _, h⟩
  · decide
  · exact List.mem_cons_of_mem _ (toDigits_decimal_mem h)

theorem Ipv4Addr.display_ne_nil (ip : Ipv4Addr) : ip.display ≠ [] := by
  have : '.' ∈ ip.display := by
    rcases ip with ⟨_ | ⟨a, _ | ⟨b, rest⟩⟩, hlen⟩
    · cases hlen
    · cases hlen
    · exact sep_mem_joinWith _ _ a b rest
  exact List.ne_nil_of_mem this

theorem mem_fmtSubslice {groups : List Nat} {c : Char} (h : c ∈ fmtSubslice groups) :
    c ∈ ipChars := by
  rcases mem_joinWith h with rfl | ⟨_, _, h⟩
  · decide
  · exact toDigits_hex_mem h

/-- An IPv6 address's text is colons, dots and hexadecimal digits. -/
theorem Ipv6Addr.mem_display {ip : Ipv6Addr} {c : Char} (h : c ∈ ip.display) : c ∈ ipChars := by
  unfold Ipv6Addr.display at h
  split at h
  · rcases List.mem_append.mp h with h | h
    · exact (by decide : ∀ c ∈ "::ffff:".toList, c ∈ ipChars) c h
    · exact (by decide : ∀ c ∈ ".0123456789".toList, c ∈ ipChars) c (Ipv4Addr.mem_display h)
  · dsimp only at h
    split at h
    · simp only [List.mem_append] at h
      rcases h with (h | h) | h
      · exact mem_fmtSubslice h
      · exact (by decide : ∀ c ∈ "::".toList, c ∈ ipChars) c h
      · exact mem_fmtSubslice h
    · exact mem_fmtSubslice h

/-- An IPv6 address's text has a colon: in `::ffff:`, in `::`, or between its eight groups. -/
theorem Ipv6Addr.colon_mem_display (ip : Ipv6Addr) : ':' ∈ ip.display := by
  have hgroups : ∀ l : List UInt8, l.length = 16 → ∃ x y rest, groups16 l = x :: y :: rest
    | _ :: _ :: _ :: _ :: _, _ => ⟨_, _, _, rfl⟩
    | [], h | [_], h | [_, _], h | [_, _, _], h => by simp at h
  unfold Ipv6Addr.display
  split
  · simp
  · dsimp only
    split
    · simp
    · obtain ⟨x, y, rest, hxy⟩ := hgroups ip.octets ip.length_eq
      rw [Ipv6Addr.segments, hxy]
      exact sep_mem_joinWith _ _ x y rest

/-! ### Decimal text read back -/

theorem toDigitsCore_append (b : Nat) :
    ∀ fuel n ds, Nat.toDigitsCore b fuel n ds = Nat.toDigitsCore b fuel n [] ++ ds
  | 0, _, _ => rfl
  | fuel + 1, n, ds => by
    simp only [Nat.toDigitsCore]
    split
    · rfl
    · rw [toDigitsCore_append b fuel _ (_ :: ds), toDigitsCore_append b fuel _ [_]]
      simp

/-- Any fuel above the number gives the same digits. -/
theorem toDigitsCore_fuel {b : Nat} (hb : 1 < b) :
    ∀ f g n ds, n < f → n < g → Nat.toDigitsCore b f n ds = Nat.toDigitsCore b g n ds
  | 0, _, _, _, hf, _ => absurd hf (Nat.not_lt_zero _)
  | _ + 1, 0, _, _, _, hg => absurd hg (Nat.not_lt_zero _)
  | f + 1, g + 1, n, ds, hf, hg => by
    simp only [Nat.toDigitsCore]
    split
    · rfl
    · have : n / b < n := Nat.div_lt_self (Nat.pos_of_ne_zero fun h => by simp_all) hb
      exact toDigitsCore_fuel hb f g _ _ (by omega) (by omega)

/-- The decimal text of a number of two digits or more is the text of its tenth and its last
digit. -/
theorem toDigits_ten {n : Nat} (h : 10 ≤ n) :
    Nat.toDigits 10 n = Nat.toDigits 10 (n / 10) ++ [Nat.digitChar (n % 10)] := by
  have hq : n / 10 ≠ 0 := by omega
  have hlt : n / 10 < n := by omega
  rw [Nat.toDigits, Nat.toDigitsCore, if_neg hq, toDigitsCore_append, Nat.toDigits,
    toDigitsCore_fuel (by decide) n (n / 10 + 1) _ _ hlt (by omega)]

theorem digitChar_decimal : ∀ d < 10, (Nat.digitChar d).isDigit = true ∧
    (Nat.digitChar d).toNat - '0'.toNat = d := by
  decide

namespace Url

theorem parsePort_snoc {c : Char} (hc : c.isDigit = true) :
    ∀ {l : List Char} {p q : Nat} {anyDigit : Bool}, parsePort p anyDigit l = .ok (some q, []) →
      q * 10 + (c.toNat - '0'.toNat) ≤ 65535 →
      parsePort p anyDigit (l ++ [c]) = .ok (some (q * 10 + (c.toNat - '0'.toNat)), [])
  | [], p, q, anyDigit, h, hle => by
    obtain ⟨rfl, rfl⟩ : anyDigit = true ∧ p = q := by
      cases anyDigit <;> simp_all [parsePort]
    simp only [List.nil_append, parsePort, hc, if_true, if_neg (Nat.not_lt.mpr hle)]
  | x :: rest, p, q, anyDigit, h, hle => by
    simp only [List.cons_append, parsePort] at h ⊢
    by_cases hx : x.isDigit = true
    · rw [if_pos hx] at h ⊢
      by_cases hover : 65535 < p * 10 + (x.toNat - '0'.toNat)
      · rw [if_pos hover] at h
        cases h
      · rw [if_neg hover] at h ⊢
        exact parsePort_snoc hc h hle
    · rw [if_neg hx] at h
      split at h
      · exact absurd (congrArg Prod.snd (Except.ok.inj h)) (List.cons_ne_nil _ _)
      · cases h

/-- The decimal text of a port is read back as that port. -/
theorem parsePort_toDigits : ∀ n ≤ 65535, parsePort 0 false (Nat.toDigits 10 n) = .ok (some n, [])
  | n, hn =>
    if h : n < 10 then by
      obtain ⟨hdig, hval⟩ := digitChar_decimal n h
      have hd : Nat.toDigits 10 n = [Nat.digitChar n] := by
        simp [Nat.toDigits, Nat.toDigitsCore, Nat.div_eq_of_lt h, Nat.mod_eq_of_lt h]
      rw [hd]
      simp only [parsePort, hdig, if_true, Nat.zero_mul, Nat.zero_add, hval,
        if_neg (Nat.not_lt.mpr hn)]
    else by
      have ht := parsePort_toDigits (n / 10) (by omega)
      obtain ⟨hdig, hval⟩ := digitChar_decimal (n % 10) (Nat.mod_lt _ (by decide))
      rw [toDigits_ten (by omega)]
      have := parsePort_snoc hdig ht (by omega)
      rwa [hval, Nat.div_add_mod'] at this

/-- A port that meets a colon before the authority's end is `InvalidPort`. -/
theorem parsePort_of_colon_mem :
    ∀ {l : List Char} (p : Nat) (anyDigit : Bool), (∀ c ∈ l, c ∈ ipChars) → ':' ∈ l →
      parsePort p anyDigit l = .error .invalidPort
  | [], _, _, _, h => absurd h (List.not_mem_nil _)
  | c :: rest, p, anyDigit, hl, h => by
    have hend := (ipChars_plain c (hl c (List.mem_cons_self _ _))).1
    simp only [parsePort]
    by_cases hc : c.isDigit = true
    · rw [if_pos hc]
      split
      · rfl
      · have hrest : ':' ∈ rest := (List.mem_cons.mp h).resolve_left fun h' => by
          subst h'
          exact absurd hc (by decide)
        exact parsePort_of_colon_mem _ _ (fun x hx => hl x (List.mem_cons_of_mem _ hx)) hrest
    · rw [if_neg hc, if_neg (by simp [hend])]

theorem parseUserinfo_of_ipChars {l : List Char} (hl : ∀ c ∈ l, c ∈ ipChars) :
    parseUserinfo l = .ok l := by
  have : '@' ∉ l.takeWhile fun c => !isAuthorityEnd c := fun h =>
    (ipChars_plain _ (hl _ ((List.takeWhile_prefix _).subset h))).2.1 rfl
  simp only [parseUserinfo, if_neg this]

theorem dropWhile_slashes {l : List Char} (hl : ∀ c ∈ l, c ∈ ipChars) :
    ("//".toList ++ l).dropWhile (fun c => c = '/' || c = '\\') = l := by
  cases l with
  | nil => rfl
  | cons c rest =>
    have hc := (ipChars_plain c (hl c (List.mem_cons_self _ _))).2.2.2.2
    show List.dropWhile _ ('/' :: '/' :: c :: rest) = _
    simp [List.dropWhile, hc]

/-- A text of IP characters without a colon is all host. -/
theorem hostEnd_of_colon_not_mem :
    ∀ {d : List Char} (tail : List Char), (∀ c ∈ d, c ∈ ipChars) → ':' ∉ d →
      hostEnd false (d ++ ':' :: tail) = (d, ':' :: tail)
  | [], _, _, _ => by simp [hostEnd]
  | c :: rest, tail, hd, hcolon => by
    obtain ⟨hend, -, hl, hr, -⟩ := ipChars_plain c (hd c (List.mem_cons_self _ _))
    have hc : c ≠ ':' := fun h => hcolon (h ▸ List.mem_cons_self _ _)
    have ih := hostEnd_of_colon_not_mem tail (fun x hx => hd x (List.mem_cons_of_mem _ hx))
      fun h => hcolon (List.mem_cons_of_mem _ h)
    simp only [List.cons_append, hostEnd, hend, hc, hl, hr, decide_False, Bool.false_and,
      Bool.or_false, if_false, Bool.false_eq_true, List.append_eq, ih]

/-- In a text of IP characters with a colon, the host stops at its first colon. -/
theorem hostEnd_of_colon_mem :
    ∀ {d : List Char} (tail : List Char), (∀ c ∈ d, c ∈ ipChars) → ':' ∈ d →
      ∃ host r, hostEnd false (d ++ tail) = (host, ':' :: (r ++ tail)) ∧ ∀ c ∈ r, c ∈ ipChars
  | [], _, _, h => absurd h (List.not_mem_nil _)
  | c :: rest, tail, hd, hcolon => by
    obtain ⟨hend, -, hl, hr, -⟩ := ipChars_plain c (hd c (List.mem_cons_self _ _))
    have hrest : ∀ x ∈ rest, x ∈ ipChars := fun x hx => hd x (List.mem_cons_of_mem _ hx)
    by_cases hc : c = ':'
    · subst hc
      exact ⟨[], rest, by simp [hostEnd], hrest⟩
    · obtain ⟨host, r, h, hr'⟩ := hostEnd_of_colon_mem tail hrest
        ((List.mem_cons.mp hcolon).resolve_left fun h => hc h.symm)
      refine ⟨c :: host, r, ?_, hr'⟩
      simp only [List.cons_append, hostEnd, hend, hc, hl, hr, decide_False, Bool.false_and,
        Bool.or_false, if_false, Bool.false_eq_true, List.append_eq, h]

variable {H : Type} (hostParse : List Char → Except UrlParseError H)

/-- `http://` and a text of IP characters with a colon, a colon and a port is an `Err`: the port
the parser reads starts after the text's first colon and meets the second. -/
theorem parseHttp_of_colon_mem {d : List Char} (hd : ∀ c ∈ d, c ∈ ipChars) (hcolon : ':' ∈ d)
    (port : List Char) (hport : ∀ c ∈ port, c ∈ ipChars) :
    ∃ e, parseHttp hostParse ("//".toList ++ d ++ ':' :: port) = .error e := by
  have htext := ipChars_colon_append hd hport
  obtain ⟨host, r, hend, hr⟩ := hostEnd_of_colon_mem (':' :: port) hd hcolon
  have hrest : parsePort 0 false (r ++ ':' :: port) = .error .invalidPort :=
    parsePort_of_colon_mem 0 false (ipChars_colon_append hr hport) (by simp)
  rw [parseHttp, List.append_assoc, dropWhile_slashes htext, afterDoubleSlash,
    parseUserinfo_of_ipChars htext]
  simp only [bind, Except.bind, parseHostAndPort, parseHost, hend]
  by_cases hh : host = []
  · simp only [hh, if_true]
    exact ⟨_, rfl⟩
  · simp only [hh, if_false]
    cases hostParse host with
    | error e => exact ⟨e, rfl⟩
    | ok h => exact ⟨.invalidPort, by simp only [Except.map, hrest]⟩

/-- `http://` and a nonempty text of IP characters without a colon, a colon and the decimal text
of a port: the host is `Host::parse` of the text, and the port is the given one unless it is 80. -/
theorem parseHttp_of_colon_not_mem {d : List Char} (hd : ∀ c ∈ d, c ∈ ipChars) (hcolon : ':' ∉ d)
    (hne : d ≠ []) (port : UInt16) :
    parseHttp hostParse ("//".toList ++ d ++ ':' :: Nat.toDigits 10 port.toNat) =
      (hostParse d).map fun host => ⟨host, if port = 80 then none else some port, []⟩ := by
  have htext := ipChars_colon_append hd fun c (h : c ∈ Nat.toDigits 10 port.toNat) =>
    decimal_mem_ipChars (toDigits_decimal_mem h)
  have h80 : (if port.toNat = 80 then none else some port.toNat.toUInt16) =
      if port = 80 then none else some port := by
    by_cases h : port = 80
    · simp [h]
    · rw [if_neg h, if_neg fun h' => h (UInt16.toNat.inj (by rw [h']; rfl)), toUInt16_toNat]
  rw [parseHttp, List.append_assoc, dropWhile_slashes htext, afterDoubleSlash,
    parseUserinfo_of_ipChars htext]
  simp only [bind, Except.bind, parseHostAndPort, parseHost,
    hostEnd_of_colon_not_mem _ hd hcolon, if_neg hne]
  cases hostParse d with
  | error e => rfl
  | ok host =>
    simp only [Except.map, parsePort_toDigits port.toNat (Nat.le_of_lt_succ port.toNat_lt_size),
      Option.some_bind, h80]
    rfl

end Url

variable {H : Type} (hostParse : List Char → Except UrlParseError H)

/-- `as_http_url` panics on every IPv6 peer, whatever `Host::parse` accepts: std writes the address
without brackets, so `url`'s parser takes the part before its first colon as the host and then
reads a port that meets a colon. So `get_peers_all` panics, before any request, on every node
whose address is IPv6, whatever `Url::join` does. -/
theorem asHttpUrl_panics_on_ipv6 (a : SocketAddrV6) :
    (∃ msg, PeerAddr.asHttpUrl hostParse ⟨.v6 a⟩ = .error (.panic msg)) ∧
      ∀ join, ∃ msg, getPeersAllUrl hostParse join ⟨⟨.v6 a⟩⟩ = .error (.panic msg) := by
  obtain ⟨e, he⟩ := Url.parseHttp_of_colon_mem hostParse (fun _ h => Ipv6Addr.mem_display h)
    a.ip.colon_mem_display (Nat.toDigits 10 a.port.toNat)
    fun c h => decimal_mem_ipChars (toDigits_decimal_mem h)
  have hpanic : PeerAddr.asHttpUrl hostParse ⟨.v6 a⟩ = unwrap (.error e) := by
    rw [PeerAddr.asHttpUrl, SocketAddr.ip, SocketAddr.port, IpAddr.display, he]
  exact ⟨⟨_, hpanic⟩, fun join => ⟨_, by rw [getPeersAllUrl, hpanic]; rfl⟩⟩

/-- On an IPv4 peer, `as_http_url` returns the URL whose host is `Host::parse` of the dotted quad,
whose port is the peer's (none for 80, `http`'s default) and after which nothing follows; it
panics exactly where `Host::parse` rejects the dotted quad. -/
theorem asHttpUrl_ipv4 (a : SocketAddrV4) :
    PeerAddr.asHttpUrl hostParse ⟨.v4 a⟩ =
      unwrap ((hostParse a.ip.display).map fun host =>
        ⟨host, if a.port = 80 then none else some a.port, []⟩) := by
  have hd : ∀ c ∈ a.ip.display, c ∈ ipChars := fun c h =>
    (by decide : ∀ c ∈ ".0123456789".toList, c ∈ ipChars) c (Ipv4Addr.mem_display h)
  have hcolon : ':' ∉ a.ip.display := fun h => absurd (Ipv4Addr.mem_display h) (by decide)
  rw [PeerAddr.asHttpUrl, SocketAddr.ip, SocketAddr.port, IpAddr.display,
    Url.parseHttp_of_colon_not_mem hostParse hd hcolon a.ip.display_ne_nil]

end SigmaRust
