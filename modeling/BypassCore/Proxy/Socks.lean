import BypassCore.Geodata.IPMatcher.Basic
import BypassCore.Lib.GoStrings
import BypassCore.Lib.Reader
import BypassCore.Lib.UTF8

/-!
# SOCKS5 requests

The client of `proxy/socks/socks.go` writes CONNECT requests and UDP headers, the server of
`app/inbound/socks5.go` reads requests from a stream, and the client reads UDP headers back. The
two share the addresses of `common/net` and nothing else.
-/

namespace BypassCore.Socks

open Lib

inductive Address where
  | ipv4 (ip : Vector UInt8 4)
  | ipv6 (ip : Vector UInt8 16)
  | domain (name : List UInt8)
deriving DecidableEq

def ipAddress (ip : List UInt8) : Option Address :=
  if h : ip.length = 4 then some (.ipv4 ⟨ip.toArray, h⟩)
  else if h : ip.length = 16 then
    if ip.take 10 = List.replicate 10 0 ∧ ip[10]? = some 0xff ∧ ip[11]? = some 0xff then
      some (.ipv4 ⟨(ip.drop 12).toArray, by simp [h]⟩)
    else some (.ipv6 ⟨ip.toArray, h⟩)
  else none

inductive Network where
  | tcp
  | udp
  | unix
deriving DecidableEq

/-- `net.Destination`. An address that could not be made is nil. -/
structure Destination where
  address : Option Address
  port : UInt16
  network : Network
deriving DecidableEq

def putUint16 (n : UInt16) : List UInt8 :=
  [UInt8.ofNat (n.toNat / 256), UInt8.ofNat (n.toNat % 256)]

def uint16 (hi lo : UInt8) : UInt16 := UInt16.ofNat (hi.toNat * 256 + lo.toNat)

/-! ### The client -/

def addressBytes : Address → Except String (List UInt8)
  | .domain host =>
    if 255 < host.length then .error "socks: socks5: domain too long (max 255)"
    else .ok (0x03 :: UInt8.ofNat host.length :: host)
  | .ipv4 ip => ipBytes ip.toList
  | .ipv6 ip => ipBytes ip.toList
where
  /-- The branch for addresses that are no domain. -/
  ipBytes (ip : NetIP) : Except String (List UInt8) :=
    match ip.to4 with
    | some v4 => .ok (0x01 :: v4)
    | none =>
      match ip.to16 with
      | some ip6 => .ok (0x04 :: ip6)
      | none => .error "socks: socks5: invalid destination IP"

/-- `buildCommandRequest`. A nil address is not looked at here: the methods of a nil interface
panic. -/
def buildCommandRequest (command : UInt8) (address : Address) (port : UInt16) :
    Except String (List UInt8) :=
  match addressBytes address with
  | .error e => .error e
  | .ok bytes => .ok ([0x05, command, 0x00] ++ bytes ++ putUint16 port)

def buildConnectRequest (address : Address) (port : UInt16) : Except String (List UInt8) :=
  buildCommandRequest 0x01 address port

def maxSOCKSUDPDatagram : Nat := 65507

def maxSOCKSUDPHeader : Nat := 3 + 1 + 1 + 255 + 2

def maxSOCKSUDPPayload : Nat := maxSOCKSUDPDatagram - maxSOCKSUDPHeader

def packetStorage : Nat := 65535

structure UDPAssociateConn where
  target : Address
  port : UInt16
  maxPayload : Nat
  header : List UInt8

def udpHeader (target : Address) (port : UInt16) : Except String (List UInt8) :=
  match buildCommandRequest 0 target port with
  | .error e => .error e
  | .ok request => .ok ([0, 0, 0] ++ request.drop 3)

variable (c : UDPAssociateConn)

def UDPAssociateConn.limit : Nat :=
  if c.maxPayload = 0 then maxSOCKSUDPPayload else c.maxPayload

/-- The header of the packets: the one that was made when the connection was, or a new one. -/
def UDPAssociateConn.packetHeader : Except String (List UInt8) :=
  if c.header = [] then udpHeader c.target c.port else .ok c.header

/-- `udpAssociateConn.Write`: the packet that goes to the relay. -/
def UDPAssociateConn.write (payload : List UInt8) : Except String (List UInt8) :=
  if c.limit < payload.length then
    .error "socks: socks5: UDP payload exceeds configured udpMaxPacketBytes"
  else
    match c.packetHeader with
    | .error e => .error e
    | .ok header =>
      let required := header.length + payload.length
      if maxSOCKSUDPDatagram < required ∨ packetStorage < required then
        .error "socks: socks5: UDP payload exceeds maximum datagram size"
      else .ok (header ++ payload)

def parseSocksUDPHeader (packet : List UInt8) : Except String (Nat × Destination) :=
  match packet with
  | 0 :: 0 :: 0 :: 0x01 :: rest =>
    if packet.length < 4 + 4 then .error "socks: socks5: truncated UDP IPv4 address"
    else port (ipAddress (rest.take 4)) (4 + 4)
  | 0 :: 0 :: 0 :: 0x04 :: rest =>
    if packet.length < 4 + 16 then .error "socks: socks5: truncated UDP IPv6 address"
    else port (ipAddress (rest.take 16)) (4 + 16)
  | 0 :: 0 :: 0 :: 0x03 :: rest =>
    match rest with
    | [] => .error "socks: socks5: truncated UDP domain"
    | length :: rest =>
      if packet.length < 4 + 1 + length.toNat then .error "socks: socks5: truncated UDP domain"
      else port (some (.domain (rest.take length.toNat))) (4 + 1 + length.toNat)
  | 0 :: 0 :: 0 :: _ :: _ => .error "socks: socks5: invalid UDP address type"
  | _ => .error "socks: socks5: malformed or fragmented UDP packet"
where
  port (address : Option Address) (offset : Nat) : Except String (Nat × Destination) :=
    match packet.drop offset with
    | hi :: lo :: _ => .ok (offset + 2, ⟨address, uint16 hi lo, .udp⟩)
    | _ => .error "socks: socks5: truncated UDP packet"

def isControl (c : Char) : Bool := c.toNat < 0x20 || (0x7f ≤ c.toNat && c.toNat < 0xa0)

def validSOCKS5Domain (domain : List UInt8) : Bool :=
  let runes := UTF8.runes domain
  domain ≠ [] && UTF8.validString domain &&
    !(runes.head?.any GoStrings.isSpace || runes.getLast?.any GoStrings.isSpace) &&
    !domain.any (fun b => b ∈ ([0x00, 0x2f, 0x3a, 0x5b, 0x5d] : List UInt8)) &&
    !runes.any (fun value => isControl value || GoStrings.isSpace value)

/-- A connection: what it has still to deliver. Errors are their texts. -/
abbrev Conn := Reader UInt8 String

def replySucceeded : UInt8 := 0x00

def replyGeneralFailure : UInt8 := 0x01

def replyCommandNotSupported : UInt8 := 0x07

def replyAddressTypeUnsupported : UInt8 := 0x08

/-- A computation that reads from a connection and may fail with a reply and an error. -/
abbrev ReadM := ExceptT (UInt8 × String) (StateM Conn)

/-- `io.ReadFull`, with the error that it makes the function return. -/
def readBytes (k : Nat) (message : String) : ReadM (List UInt8) := fun conn =>
  match conn.readFull "EOF" "unexpected EOF" k with
  | (.ok data, conn') => (.ok data, conn')
  | (.error e, conn') => (.error (replyGeneralFailure, "inbound: " ++ message ++ " > " ++ e), conn')

def readAddress (type : UInt8) : ReadM (Option Address) := do
  if type = 0x01 then
    let raw ← readBytes 4 "read SOCKS5 IPv4 address"
    return ipAddress raw
  else if type = 0x04 then
    let raw ← readBytes 16 "read SOCKS5 IPv6 address"
    return ipAddress raw
  else if type = 0x03 then
    let size ← readBytes 1 "read SOCKS5 domain length"
    let size := size.headD 0
    if size = 0 then
      throw (replyAddressTypeUnsupported, "inbound: SOCKS5 domain must not be empty")
    let raw ← readBytes size.toNat "read SOCKS5 domain"
    if !validSOCKS5Domain raw then
      throw (replyAddressTypeUnsupported, "inbound: invalid SOCKS5 domain")
    return some (.domain raw)
  else
    throw (replyAddressTypeUnsupported,
      "inbound: unsupported SOCKS5 address type: " ++ toString type.toNat)

def readSOCKS5ConnectRequest : ReadM (Destination × UInt8) := do
  let header ← readBytes 4 "read SOCKS5 request"
  let version := header.getD 0 0
  if version ≠ 0x05 then
    throw (replyGeneralFailure,
      "inbound: invalid SOCKS5 request version: " ++ toString version.toNat)
  if header.getD 2 0 ≠ 0 then
    throw (replyGeneralFailure, "inbound: invalid SOCKS5 reserved byte")
  let address ← readAddress (header.getD 3 0)
  let portBytes ← readBytes 2 "read SOCKS5 port"
  let port := uint16 (portBytes.getD 0 0) (portBytes.getD 1 0)
  if port = 0 then
    throw (replyGeneralFailure, "inbound: SOCKS5 destination port must not be zero")
  let command := header.getD 1 0
  if command ≠ 0x01 then
    throw (replyCommandNotSupported,
      "inbound: unsupported SOCKS5 command: " ++ toString command.toNat)
  return (⟨address, port, .tcp⟩, replySucceeded)

/-! ## SOCKS5 requests are read as they were written -/

open Reader

lemma uint16_putUint16 (n : UInt16) :
    uint16 (UInt8.ofNat (n.toNat / 256)) (UInt8.ofNat (n.toNat % 256)) = n := by
  have hn : n.toNat < 65536 := n.toNat_lt
  have hhi : n.toNat / 256 % 256 = n.toNat / 256 := Nat.mod_eq_of_lt (by omega)
  simp only [uint16, UInt8.toNat_ofNat', hhi, Nat.mod_mod, Nat.div_add_mod', UInt16.ofNat_toNat]

def Address.Carried : Address → Prop
  | .ipv4 _ => True
  | .ipv6 ip => ip.toList.take 12 ≠ v4InV6Prefix
  | .domain name => validSOCKS5Domain name = true ∧ name.length ≤ 255

lemma ne_nil_of_validSOCKS5Domain {name : List UInt8} (h : validSOCKS5Domain name = true) :
    name ≠ [] := by
  rintro rfl
  cases h

lemma toNat_ofNat_length {name : List UInt8} (h : name.length ≤ 255) :
    (UInt8.ofNat name.length).toNat = name.length :=
  UInt8.toNat_ofNat_of_lt' (Nat.lt_succ_of_le h)

lemma ipAddress_ipv4 (ip : Vector UInt8 4) : ipAddress ip.toList = some (.ipv4 ip) := by
  have hlen : ip.toList.length = 4 := by simp
  rw [ipAddress, dif_pos hlen]
  rfl

/-- The two tests for IPv4 addresses that are mapped into IPv6. -/
lemma mapped_iff (ip : List UInt8) :
    ip.take 12 = v4InV6Prefix ↔
      ip.take 10 = List.replicate 10 0 ∧ ip[10]? = some 0xff ∧ ip[11]? = some 0xff := by
  constructor
  · intro h
    have hget (i : Nat) (hi : i < 12) : ip[i]? = v4InV6Prefix[i]? := by
      rw [← h, List.getElem?_take_of_lt hi]
    refine ⟨?_, hget 10 (by decide), hget 11 (by decide)⟩
    have htake : ip.take 10 = (ip.take 12).take 10 := by rw [List.take_take]; rfl
    rw [htake, h]
    rfl
  · rintro ⟨hzero, hten, heleven⟩
    rw [List.take_add_one, List.take_add_one, hzero, hten, heleven]
    rfl

lemma ipAddress_ipv6 {ip : Vector UInt8 16} (h : ip.toList.take 12 ≠ v4InV6Prefix) :
    ipAddress ip.toList = some (.ipv6 ip) := by
  have hlen : ip.toList.length = 16 := by simp
  rw [ipAddress, dif_neg (by rw [hlen]; decide), dif_pos hlen, if_neg (by rwa [← mapped_iff])]
  rfl

def Address.type : Address → UInt8
  | .ipv4 _ => 0x01
  | .ipv6 _ => 0x04
  | .domain _ => 0x03

def Address.bytes : Address → List UInt8
  | .ipv4 ip => ip.toList
  | .ipv6 ip => ip.toList
  | .domain name => UInt8.ofNat name.length :: name

variable {address : Address} {port : UInt16} {rest : List UInt8}

lemma addressBytes_eq (h : address.Carried) :
    addressBytes address = .ok (address.type :: address.bytes) := by
  cases address with
  | ipv4 ip =>
    have hto4 : NetIP.to4 ip.toList = some ip.toList := if_pos (by simp)
    simp only [addressBytes, addressBytes.ipBytes, hto4]
    rfl
  | ipv6 ip =>
    have hlen : ip.toList.length = 16 := by simp
    have hto4 : NetIP.to4 ip.toList = none := by
      rw [NetIP.to4, if_neg (by rw [hlen]; decide), if_neg fun hmapped => h hmapped.2]
    have hto16 : NetIP.to16 ip.toList = some ip.toList := by
      rw [NetIP.to16, if_neg (by rw [hlen]; decide), if_pos hlen]
    simp only [addressBytes, addressBytes.ipBytes, hto4, hto16]
    rfl
  | domain name =>
    rw [addressBytes, if_neg (Nat.not_lt.mpr h.2)]
    rfl

lemma buildCommandRequest_eq (command : UInt8) (h : address.Carried) (port : UInt16) :
    buildCommandRequest command address port =
      .ok ([0x05, command, 0x00, address.type] ++ (address.bytes ++ putUint16 port)) := by
  rw [buildCommandRequest, addressBytes_eq h]
  rfl

lemma consumes_readBytes {s : List UInt8} {k : Nat} (message : String) (hk : s.length = k) :
    Consumes (readBytes k message) s s := by
  intro rest conn hconn
  obtain ⟨conn', hread, hconn'⟩ := readFull_of_delivers "unexpected EOF" hconn hk
  refine ⟨conn', ?_, hconn'⟩
  show readBytes k message conn = _
  rw [readBytes, hread]

lemma consumes_readAddress (h : address.Carried) :
    Consumes (readAddress address.type) address.bytes (some address) := by
  cases address with
  | ipv4 ip =>
    rw [← ipAddress_ipv4, ← List.append_nil (Address.bytes _)]
    exact (consumes_readBytes _ (by simp [Address.bytes])).bind (consumes_pure _)
  | ipv6 ip =>
    rw [← ipAddress_ipv6 h, ← List.append_nil (Address.bytes _)]
    exact (consumes_readBytes _ (by simp [Address.bytes])).bind (consumes_pure _)
  | domain name =>
    have hlen := toNat_ofNat_length h.2
    have hne : UInt8.ofNat name.length ≠ 0 := by
      intro hzero
      rw [hzero] at hlen
      exact ne_nil_of_validSOCKS5Domain h.1 (List.length_eq_zero_iff.mp hlen.symm)
    have hsize : Address.bytes (.domain name) = [UInt8.ofNat name.length] ++ (name ++ []) := by
      rw [List.append_nil]
      rfl
    rw [hsize]
    refine (consumes_readBytes _ rfl).bind ?_
    simp only [List.headD_cons, hne]
    refine (consumes_readBytes _ hlen.symm).bind ?_
    simp only [h.1]
    exact consumes_pure _

/-- A request is read as the destination it was built for. -/
lemma consumes_request (h : address.Carried) (hport : port ≠ 0) :
    Consumes readSOCKS5ConnectRequest
      ([0x05, 0x01, 0x00, address.type] ++ (address.bytes ++ putUint16 port))
      (⟨some address, port, .tcp⟩, replySucceeded) := by
  refine (consumes_readBytes _ rfl).bind ?_
  refine (consumes_readAddress h).bind ?_
  rw [← List.append_nil (putUint16 port)]
  refine (consumes_readBytes _ rfl).bind ?_
  simp only [putUint16, List.getD_cons_zero, List.getD_cons_succ, uint16_putUint16, hport]
  exact consumes_pure _

/-! ### UDP headers -/

lemma udpHeader_eq (h : address.Carried) (port : UInt16) :
    udpHeader address port =
      .ok ([0, 0, 0, address.type] ++ (address.bytes ++ putUint16 port)) := by
  rw [udpHeader, buildCommandRequest_eq 0 h]
  rfl

lemma port_eq {packet payload : List UInt8} {a : Option Address} {offset : Nat} {port : UInt16}
    (h : packet.drop offset = putUint16 port ++ payload) :
    parseSocksUDPHeader.port packet a offset = .ok (offset + 2, ⟨a, port, .udp⟩) := by
  rw [parseSocksUDPHeader.port, h]
  simp only [putUint16, List.cons_append, uint16_putUint16]

lemma parseSocksUDPHeader_eq (h : address.Carried) (port : UInt16) (payload : List UInt8) :
    parseSocksUDPHeader ([0, 0, 0, address.type] ++ (address.bytes ++ putUint16 port) ++ payload) =
      .ok ((4 + address.bytes.length + 2), ⟨some address, port, .udp⟩) := by
  cases address with
  | ipv4 ip =>
    have hlen : ip.toList.length = 4 := by simp
    simp only [Address.type, Address.bytes, List.cons_append, List.nil_append, List.append_assoc,
      parseSocksUDPHeader, hlen]
    rw [if_neg (by simp), List.take_left' hlen, ipAddress_ipv4]
    exact port_eq (List.drop_left' hlen)
  | ipv6 ip =>
    have hlen : ip.toList.length = 16 := by simp
    simp only [Address.type, Address.bytes, List.cons_append, List.nil_append, List.append_assoc,
      parseSocksUDPHeader, hlen]
    rw [if_neg (by simp), List.take_left' hlen, ipAddress_ipv6 h]
    exact port_eq (List.drop_left' hlen)
  | domain name =>
    have hlen := toNat_ofNat_length h.2
    simp only [Address.type, Address.bytes, List.cons_append, List.nil_append, List.append_assoc,
      parseSocksUDPHeader, hlen, List.length_cons]
    rw [if_neg (by simp; omega), List.take_left' rfl]
    have hoffset : 4 + 1 + name.length = name.length + 1 + 4 := by omega
    have hdrop : (0 :: 0 :: 0 :: 0x03 :: UInt8.ofNat name.length ::
        (name ++ (putUint16 port ++ payload))).drop (4 + 1 + name.length) =
          putUint16 port ++ payload := by
      rw [hoffset]
      exact List.drop_left' rfl
    rw [Nat.add_comm name.length 1, ← Nat.add_assoc]
    exact port_eq hdrop

lemma packetHeader_eq {c : UDPAssociateConn} (h : c.target.Carried)
    (hc : c.header = [] ∨ udpHeader c.target c.port = .ok c.header) :
    c.packetHeader = .ok ([0, 0, 0, c.target.type] ++ (c.target.bytes ++ putUint16 c.port)) := by
  have hheader := udpHeader_eq h c.port
  rw [UDPAssociateConn.packetHeader]
  split_ifs with hnil
  · exact hheader
  · rw [← hc.resolve_left hnil, hheader]

lemma length_bytes_le (h : address.Carried) : address.bytes.length ≤ 256 := by
  cases address with
  | ipv4 ip => simp [Address.bytes]
  | ipv6 ip => simp [Address.bytes]
  | domain name => exact Nat.succ_le_succ h.2

/-- Client and server agree on the wire. The server reads a request as the destination for which
the client has built it; and where `Write` sends a packet, which it does for every payload within
the limits, the header of the packet is read back and the payload is what follows it. -/
theorem socks5_roundTrip (h : address.Carried) :
    (∀ port, port ≠ 0 → ∃ request, buildConnectRequest address port = .ok request ∧
      Consumes readSOCKS5ConnectRequest request (⟨some address, port, .tcp⟩, replySucceeded)) ∧
    ∀ c : UDPAssociateConn, c.target = address →
      (c.header = [] ∨ udpHeader address c.port = .ok c.header) → ∀ payload,
        (∀ packet, c.write payload = .ok packet → ∃ header, packet = header ++ payload ∧
          parseSocksUDPHeader packet = .ok (header.length, ⟨some address, c.port, .udp⟩)) ∧
        (payload.length ≤ c.limit → payload.length ≤ maxSOCKSUDPPayload →
          ∃ packet, c.write payload = .ok packet) := by
  constructor
  · intro port hport
    exact ⟨_, buildCommandRequest_eq 0x01 h port, consumes_request h hport⟩
  · rintro c rfl hc payload
    have hlength : ([0, 0, 0, c.target.type] ++ (c.target.bytes ++ putUint16 c.port)).length =
        4 + c.target.bytes.length + 2 := by
      simp [putUint16]
      omega
    rw [UDPAssociateConn.write, packetHeader_eq h hc]
    dsimp only
    constructor
    · intro packet hpacket
      split_ifs at hpacket
      cases hpacket
      exact ⟨_, rfl, by rw [parseSocksUDPHeader_eq h, hlength]⟩
    · intro hlimit hmax
      have hbytes := length_bytes_le h
      rw [if_neg (Nat.not_lt.mpr hlimit), if_neg ?_]
      · exact ⟨_, rfl⟩
      · simp only [maxSOCKSUDPPayload, maxSOCKSUDPHeader, maxSOCKSUDPDatagram] at hmax
        simp only [maxSOCKSUDPDatagram, packetStorage]
        omega

/-- The request for `a.b:443`, and the packet that `Write` sends there for one byte. -/
theorem socks5_roundTrip_domain :
    (∃ request, buildConnectRequest (.domain [97, 46, 98]) 443 = .ok request ∧
      Consumes readSOCKS5ConnectRequest request
        (⟨some (.domain [97, 46, 98]), 443, .tcp⟩, replySucceeded)) ∧
    ∃ packet, UDPAssociateConn.write ⟨.domain [97, 46, 98], 443, 1, []⟩ [7] = .ok packet ∧
      ∃ header, packet = header ++ [7] ∧ parseSocksUDPHeader packet =
        .ok (header.length, ⟨some (.domain [97, 46, 98]), 443, .udp⟩) := by
  have hcarried : Address.Carried (.domain [97, 46, 98]) := ⟨by decide, by decide⟩
  obtain ⟨htcp, hudp⟩ := socks5_roundTrip hcarried
  obtain ⟨hread, hwrite⟩ := hudp ⟨.domain [97, 46, 98], 443, 1, []⟩ rfl (.inl rfl) [7]
  obtain ⟨packet, hpacket⟩ := hwrite (by decide) (by decide)
  exact ⟨htcp 443 (by decide), packet, hpacket, hread packet hpacket⟩

end BypassCore.Socks
