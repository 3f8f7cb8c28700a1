import HyperFastPath.Dummies.Pool
import HyperFastPath.Lib.Bytes

/-!
# How connections are named

The maps of the fast path know a connection by its two addresses.  The programs read these off their
context; `dummies.rs` puts them together from what a socket says of itself.
-/

namespace HyperFastPath.Dummies

open Bytes

/-- The byte order of the machine. -/
inductive Endian where
  | little
  | big
  deriving DecidableEq, Repr

variable (e : Endian)

/-- `u32::to_ne_bytes`. -/
def toNe (x : UInt32) : List UInt8 :=
  match e with
  | .little => (toBe 4 x.toNat).reverse
  | .big => toBe 4 x.toNat

/-- `u32::from_ne_bytes`. -/
def fromNe (bs : List UInt8) : UInt32 :=
  match e with
  | .little => .ofNat (ofBe bs.reverse)
  | .big => .ofNat (ofBe bs)

/-- `bpf_ntohl`: the number that the bytes of `x` spell out in network order. -/
def ntohl (x : UInt32) : UInt32 := .ofNat (ofBe (toNe e x))

/-- `bpf_htonl`. -/
def htonl (x : UInt32) : UInt32 := fromNe e (toBe 4 x.toNat)

/-- `std::net::SocketAddrV4`. -/
structure SocketAddrV4 where
  octets : { l : List UInt8 // l.length = 4 }
  port : UInt16
  deriving DecidableEq

inductive SocketAddr where
  | v4 (addr : SocketAddrV4)
  | v6
  deriving DecidableEq

/-- What a program's context says of the socket it runs on.  `struct sk_msg_md`, `struct __sk_buff`
and `struct bpf_sock_ops` have these fields alike. -/
structure SockCtx where
  localIp4 : UInt32
  localPort : UInt32
  remoteIp4 : UInt32
  remotePort : UInt32
  deriving DecidableEq, Repr

/-- The context of a socket.  The local port is in host byte order and the rest in network order. -/
def SockCtx.of (loc rem : SocketAddrV4) : SockCtx :=
  { localIp4 := fromNe e loc.octets.1
    localPort := loc.port.toUInt32
    remoteIp4 := fromNe e rem.octets.1
    remotePort := htonl e rem.port.toUInt32 }

/-- The key each of the programs starts out with. -/
def SockCtx.key (ctx : SockCtx) : Ip4Conn :=
  { localIp4 := ctx.localIp4
    localPort := ctx.localPort
    remoteIp4 := ctx.remoteIp4
    remotePort := ntohl e ctx.remotePort }

/-- `struct ip4_conn` in memory. -/
def Ip4Conn.bytes (c : Ip4Conn) : List UInt8 :=
  toNe e c.localIp4 ++ toNe e c.localPort ++ toNe e c.remoteIp4 ++ toNe e c.remotePort

/-- `conn_key`. -/
def connKey : SocketAddr → SocketAddr → Except String (List UInt8)
  | .v4 loc, .v4 rem =>
    .ok (loc.octets.1 ++ toNe e loc.port.toUInt32 ++ rem.octets.1 ++ toNe e rem.port.toUInt32)
  | _, _ => .error "dummy sockets have to be IPv4"

variable {e}

/-! ## 1. Bytes of a word -/

@[simp] theorem toNe_length (x : UInt32) : (toNe e x).length = 4 := by
  cases e <;> simp [toNe]

theorem ofNat_ofBe_toBe (x : UInt32) : UInt32.ofNat (ofBe (toBe 4 x.toNat)) = x := by
  have hlt : x.toNat < 256 ^ 4 := x.toNat_lt
  rw [ofBe_toBe hlt, UInt32.ofNat_toNat]

theorem toBe_ofNat_ofBe {bs : List UInt8} (h : bs.length = 4) :
    toBe 4 (UInt32.ofNat (ofBe bs)).toNat = bs := by
  have hlt : ofBe bs < 2 ^ 32 := by
    have hbound := ofBe_lt bs
    rw [h] at hbound
    exact hbound
  have hnum : (UInt32.ofNat (ofBe bs)).toNat = ofBe bs := by
    rw [UInt32.toNat_ofNat']
    exact Nat.mod_eq_of_lt hlt
  -- four bytes are a word, so nothing is cut off
  have hround := toBe_ofBe bs
  rw [h] at hround
  rw [hnum, hround]

@[simp] theorem fromNe_toNe (x : UInt32) : fromNe e (toNe e x) = x := by
  cases e with
  | little => rw [fromNe, toNe, List.reverse_reverse, ofNat_ofBe_toBe]
  | big => exact ofNat_ofBe_toBe x

theorem toNe_fromNe {bs : List UInt8} (h : bs.length = 4) : toNe e (fromNe e bs) = bs := by
  cases e with
  | little =>
    have hrev : bs.reverse.length = 4 := by rw [List.length_reverse, h]
    rw [toNe, fromNe, toBe_ofNat_ofBe hrev, List.reverse_reverse]
  | big => exact toBe_ofNat_ofBe h

@[simp] theorem ntohl_htonl (x : UInt32) : ntohl e (htonl e x) = x := by
  rw [ntohl, htonl, toNe_fromNe (toBe_length 4 _), ofNat_ofBe_toBe]

theorem toNe_injective : Function.Injective (toNe e) :=
  Function.LeftInverse.injective fromNe_toNe

/-! ## 2. Keys -/

/-- Nothing of an address is lost in the key. -/
theorem key_of (loc rem : SocketAddrV4) :
    (SockCtx.of e loc rem).key e =
      { localIp4 := fromNe e loc.octets.1, localPort := loc.port.toUInt32
        remoteIp4 := fromNe e rem.octets.1, remotePort := rem.port.toUInt32 } := by
  rw [SockCtx.key, SockCtx.of, ntohl_htonl]

theorem bytes_injective : Function.Injective (Ip4Conn.bytes e) := by
  intro c d h
  -- each field has four bytes, so the fields are told apart from the end
  obtain ⟨h, hremotePort⟩ := List.append_inj' h (by simp)
  obtain ⟨h, hremoteIp4⟩ := List.append_inj' h (by simp)
  obtain ⟨hlocalIp4, hlocalPort⟩ := List.append_inj' h (by simp)
  cases c
  cases d
  simp only [Ip4Conn.mk.injEq]
  exact ⟨toNe_injective hlocalIp4, toNe_injective hlocalPort, toNe_injective hremoteIp4,
    toNe_injective hremotePort⟩

/-- User space names a socket as the programs that run on it do. -/
theorem connKey_eq (loc rem : SocketAddrV4) :
    connKey e (.v4 loc) (.v4 rem) = .ok (((SockCtx.of e loc rem).key e).bytes e) := by
  -- the octets go through the key as they are, whatever the byte order
  rw [key_of, Ip4Conn.bytes, toNe_fromNe loc.octets.2, toNe_fromNe rem.octets.2]
  rfl

theorem toUInt32_injective : Function.Injective UInt16.toUInt32 := by
  intro p q h
  apply UInt16.toNat_inj.mp
  rw [← UInt16.toNat_toUInt32, h, UInt16.toNat_toUInt32]

theorem addr_eq {a b : SocketAddrV4} (hip : fromNe e a.octets.1 = fromNe e b.octets.1)
    (hport : a.port.toUInt32 = b.port.toUInt32) : a = b := by
  have hoctets : a.octets.1 = b.octets.1 := by
    rw [← toNe_fromNe (e := e) a.octets.2, hip, toNe_fromNe b.octets.2]
  cases a
  cases b
  simp only [SocketAddrV4.mk.injEq]
  exact ⟨Subtype.ext hoctets, toUInt32_injective hport⟩

/-- Different sockets have different keys. -/
theorem key_inj {loc rem loc' rem' : SocketAddrV4} :
    (SockCtx.of e loc rem).key e = (SockCtx.of e loc' rem').key e ↔ loc = loc' ∧ rem = rem' := by
  constructor
  · intro h
    rw [key_of, key_of] at h
    simp only [Ip4Conn.mk.injEq] at h
    obtain ⟨hlocalIp4, hlocalPort, hremoteIp4, hremotePort⟩ := h
    exact ⟨addr_eq hlocalIp4 hlocalPort, addr_eq hremoteIp4 hremotePort⟩
  · rintro ⟨rfl, rfl⟩
    rfl

/-! ## 3. The server's address -/

/-- What `attach` sets the programs' `ip4` and `port` to. -/
structure Server where
  ip4 : UInt32
  port : UInt32
  deriving DecidableEq, Repr

variable (e) in
/-- `ip4` and `port` of `rodata`, as `attach` sets them. -/
def Server.of (addr : SocketAddrV4) : Server :=
  { ip4 := fromNe e addr.octets.1, port := addr.port.toUInt32 }

/-- The check `monitor_sockets` makes on a socket that was accepted. -/
def Server.Takes (srv : Server) (skey : Ip4Conn) : Prop :=
  (srv.ip4 = 0 ∨ skey.localIp4 = srv.ip4) ∧ skey.localPort = srv.port

instance (srv : Server) (skey : Ip4Conn) : Decidable (srv.Takes skey) :=
  inferInstanceAs (Decidable (_ ∧ _))

/-- `0.0.0.0`. -/
def unspecified : { l : List UInt8 // l.length = 4 } := ⟨[0, 0, 0, 0], rfl⟩

theorem fromNe_unspecified : fromNe e unspecified.1 = 0 := by
  cases e <;> rfl

theorem takes_iff (addr loc rem : SocketAddrV4) :
    (Server.of e addr).Takes ((SockCtx.of e loc rem).key e) ↔
      (addr.octets = unspecified ∨ loc.octets = addr.octets) ∧ loc.port = addr.port := by
  have hip (a b : { l : List UInt8 // l.length = 4 }) : fromNe e a.1 = fromNe e b.1 ↔ a = b := by
    constructor
    · intro h
      apply Subtype.ext
      rw [← toNe_fromNe (e := e) a.2, h, toNe_fromNe b.2]
    · rintro rfl
      rfl
  rw [Server.Takes, Server.of, key_of, ← hip addr.octets, fromNe_unspecified, ← hip loc.octets,
    toUInt32_injective.eq_iff]

end HyperFastPath.Dummies
