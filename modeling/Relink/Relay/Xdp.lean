import Relink.Library.Buffer
import Relink.Relay.Standalone

/-! The fast path of the standalone relay.

`relay_xdp_prog` redirects the frames of the relay's port to a socket of whole frames, and the
loop of `main` takes the payload out of them itself: it is all that follows the UDP header.
`xdp_iff` says on which frames the kernel's own UDP would have delivered the same. -/
namespace Relink.Relay
open Wire
open Rlcore (PeerEntry)

def kFrameSize : Nat := 4096

/-- An Ethernet frame, in a buffer of `kFrameSize`. -/
structure Frame where
  bytes : Bytes
  short : bytes.length ≤ kFrameSize
deriving DecidableEq

namespace Frame
variable (f : Frame)

/-- A field of a header, in network byte order. -/
def field (off width : Nat) : Nat := LittleEndian.value (Buffer.region f.bytes off width).reverse

/-- `ip->ihl`. -/
def ihl : Nat := (f.bytes.getD 14 0 &&& 0x0F).toNat

/-- Where the kernel's program sees the UDP header. -/
def udp : Nat := 14 + f.ihl * 4

/-- The address that an IPv4 and a UDP header name as the source. -/
def source (udp : Nat) : PeerEntry :=
  ⟨UInt32.ofNat (f.field 26 4), UInt16.ofNat (f.field udp 2)⟩

end Frame

def ETH_P_IP : Nat := 0x0800
def IPPROTO_UDP : UInt8 := 17

inductive XdpAction where
  | pass
  | redirect
deriving DecidableEq, Repr

def relayXdpProg (relayPort : UInt16) (f : Frame) : XdpAction :=
  if f.bytes.length < 14 then .pass
  else if f.field 12 2 ≠ ETH_P_IP then .pass
  else if f.bytes.length < 14 + 20 then .pass
  else if f.bytes.getD 23 0 ≠ IPPROTO_UDP then .pass
  else if f.bytes.length < f.udp + 8 then .pass
  else if f.field (f.udp + 2) 2 ≠ relayPort.toNat then .pass
  else .redirect

/-- The arguments of a call of `handle_packet`. -/
structure Handed where
  src : PeerEntry
  offset : Nat
  length : UInt64
deriving DecidableEq

/-- `memcpy` and pointer arithmetic of the receive loop. -/
def xdpHands (f : Frame) : Option Handed :=
  if 42 < f.bytes.length then
    let ihl : UInt8 := (f.bytes.getD 14 0 &&& 0x0F) * 4
    let udp := 14 + ihl.toNat
    let payload := udp + 8
    some ⟨f.source udp, payload, UInt64.ofNat f.bytes.length - UInt64.ofNat payload⟩
  else none

def Handed.Within (h : Handed) (f : Frame) : Prop := h.offset + h.length.toNat ≤ f.bytes.length

def Handed.payload (h : Handed) (f : Frame) : Bytes :=
  Buffer.region f.bytes h.offset h.length.toNat

/-! ### The socket path -/

/-- The UDP length field. -/
def Frame.udpLength (f : Frame) : Nat := f.field (f.udp + 4) 2

/-- An IPv4 packet that holds one whole UDP datagram. -/
structure ValidUdp (f : Frame) : Prop where
  version : (f.bytes.getD 14 0 >>> 4) = 4
  ihl : 5 ≤ f.ihl
  whole : f.field 20 2 % 0x4000 = 0
  frame : 14 + f.field 16 2 ≤ f.bytes.length
  packet : f.ihl * 4 + f.udpLength ≤ f.field 16 2
  header : 8 ≤ f.udpLength

/-- What the socket path hands over of a packet: the payload that the length field delimits, in
the buffer of the plain socket, unless it is empty. -/
def socketHands (f : Frame) : Option (PeerEntry × Bytes) :=
  let payload := (Buffer.region f.bytes (f.udp + 8) (f.udpLength - 8)).take kMaxFrameBytes
  if payload = [] then none else some (f.source f.udp, payload)

/-- Nothing follows the datagram, and if it is empty there are no IP options either. -/
def Frame.Filled (f : Frame) : Prop :=
  f.bytes.length = f.udp + f.udpLength ∧ (f.udpLength = 8 → f.ihl = 5)

instance (f : Frame) : Decidable f.Filled := inferInstanceAs (Decidable (_ ∧ _))

/-! ### The two against each other -/

variable {relayPort : UInt16} {f : Frame}

theorem ihl_le (f : Frame) : f.ihl ≤ 15 := by
  rw [Frame.ihl, UInt8.toNat_and]
  exact Nat.and_le_right

/-- Both programs find the UDP header at one place. -/
theorem ihl_bytes (f : Frame) : ((f.bytes.getD 14 0 &&& 0x0F) * 4 : UInt8).toNat = f.ihl * 4 := by
  have hle := ihl_le f
  rw [UInt8.toNat_mul]
  show f.ihl * 4 % 256 = f.ihl * 4
  omega

/-- A redirected frame has room for its headers. -/
theorem udp_le (hredirect : relayXdpProg relayPort f = .redirect) :
    f.udp + 8 ≤ f.bytes.length := by
  unfold relayXdpProg at hredirect
  by_contra hshort
  rw [if_pos (by omega : f.bytes.length < f.udp + 8)] at hredirect
  simp at hredirect

theorem xdpHands_eq (hredirect : relayXdpProg relayPort f = .redirect) :
    xdpHands f =
      if 42 < f.bytes.length then
        some ⟨f.source f.udp, f.udp + 8, UInt64.ofNat (f.bytes.length - (f.udp + 8))⟩
      else none := by
  have hihl := ihl_bytes f
  rw [xdpHands, UInt64.ofNat_sub (udp_le hredirect)]
  simp only [hihl, Frame.udp]

theorem payloadLen_toNat (f : Frame) :
    (UInt64.ofNat (f.bytes.length - (f.udp + 8))).toNat = f.bytes.length - (f.udp + 8) := by
  have hshort : f.bytes.length ≤ 4096 := f.short
  exact UInt64.toNat_ofNat_of_lt' (lt_of_le_of_lt (by omega) (by decide : 4096 < UInt64.size))

/-- What the fast path hands over is what follows the UDP header. -/
theorem xdpHands_payload (hredirect : relayXdpProg relayPort f = .redirect) :
    (xdpHands f).map (fun h => (h.src, h.payload f)) =
      if 42 < f.bytes.length then some (f.source f.udp, f.bytes.drop (f.udp + 8)) else none := by
  rw [xdpHands_eq hredirect]
  split
  · rw [Option.map_some, Handed.payload, payloadLen_toNat, Buffer.region, List.take_of_length_le]
    rw [List.length_drop]
  · rfl

/-- The payload length never leads out of a redirected frame. -/
theorem xdpHands_within (hredirect : relayXdpProg relayPort f = .redirect) {h : Handed}
    (hh : xdpHands f = some h) : h.Within f := by
  have hle := udp_le hredirect
  rw [xdpHands_eq hredirect] at hh
  split at hh
  · cases hh
    show f.udp + 8 + (UInt64.ofNat (f.bytes.length - (f.udp + 8))).toNat ≤ f.bytes.length
    rw [payloadLen_toNat]
    omega
  · cases hh

/-- The payload of a datagram that fits the plain buffer. -/
theorem socketHands_eq (hfits : f.udpLength - 8 ≤ kMaxFrameBytes) :
    socketHands f =
      if (f.bytes.drop (f.udp + 8)).take (f.udpLength - 8) = [] then none
      else some (f.source f.udp, (f.bytes.drop (f.udp + 8)).take (f.udpLength - 8)) := by
  rw [socketHands, Buffer.region, List.take_take, Nat.min_eq_right hfits]

/-- **The fast path sees what the socket path sees, exactly** when the UDP datagram ends
with the frame and, if it is empty, the IP header has no options. -/
theorem xdp_iff (relayPort : UInt16) (f : Frame) (hredirect : relayXdpProg relayPort f = .redirect) :
    (∀ h, xdpHands f = some h → h.Within f) ∧
      (ValidUdp f → f.udpLength - 8 ≤ kMaxFrameBytes →
        ((xdpHands f).map (fun h => (h.src, h.payload f)) = socketHands f ↔ f.Filled)) := by
  refine ⟨fun h hh => xdpHands_within hredirect hh, fun hvalid hfits => ?_⟩
  have hle := udp_le hredirect
  have hudp : f.udp = 14 + f.ihl * 4 := rfl
  obtain ⟨-, hihl, -, hframe, hpacket, hheader⟩ := hvalid
  rw [xdpHands_payload hredirect, socketHands_eq hfits, Frame.Filled]
  generalize hpayload : f.bytes.drop (f.udp + 8) = payload
  have hlen : payload.length = f.bytes.length - (f.udp + 8) := by rw [← hpayload, List.length_drop]
  by_cases hmin : 42 < f.bytes.length
  · rw [if_pos hmin]
    by_cases hempty : payload.take (f.udpLength - 8) = []
    · -- the fast path hands over an empty datagram, or the bytes behind it
      have hnil : f.udpLength = 8 := by
        have := congrArg List.length hempty
        rw [List.length_take, List.length_nil] at this
        omega
      rw [if_pos hempty]
      refine iff_of_false (by simp) fun ⟨hend, hoptions⟩ => ?_
      have := hoptions hnil
      omega
    · rw [if_neg hempty, Option.some.injEq, Prod.mk.injEq, and_iff_right rfl, eq_comm,
        List.take_eq_self_iff]
      have hsome : f.udpLength ≠ 8 := fun hnil => hempty (by rw [hnil]; rfl)
      constructor
      · intro hshort
        exact ⟨by omega, fun hnil => absurd hnil hsome⟩
      · intro hend
        omega
  · rw [if_neg hmin, if_pos]
    · exact iff_of_true rfl ⟨by omega, fun _ => by omega⟩
    · rw [List.take_eq_nil_iff]
      exact Or.inl (by omega)

/-- The headers of a datagram from 10.0.0.2:2 to the relay at 10.0.0.1. -/
def headers (totalLength udpLength : UInt8) : Bytes :=
  [0x02, 0, 0, 0, 0, 1, 0x02, 0, 0, 0, 0, 2, 0x08, 0x00,
    0x45, 0, 0, totalLength, 0, 0, 0x40, 0, 0x40, 17, 0x26, 0xC9, 10, 0, 0, 2, 10, 0, 0, 1,
    0, 2, 0x20, 0xFE, 0, udpLength, 0, 0]

/-- A data frame with seven bytes of payload fills the shortest Ethernet frame. -/
def dataFrame : Frame := ⟨headers 46 26 ++ frameBytes 7 0 [1, 2, 3, 4, 5, 6, 7], by decide⟩

theorem xdp_iff_dataFrame :
    (∀ h, xdpHands dataFrame = some h → h.Within dataFrame) ∧
      ((xdpHands dataFrame).map (fun h => (h.src, h.payload dataFrame)) = socketHands dataFrame ↔
        dataFrame.Filled) :=
  have h := xdp_iff 8446 dataFrame (by decide)
  ⟨h.1, h.2 ⟨by decide, by decide, by decide, by decide, by decide, by decide⟩ (by decide)⟩

/-- A REGISTER, which a network card pads. -/
def paddedRegister : Frame :=
  ⟨headers 34 14 ++ [0x52, 0x01, 7, 0, 0, 0] ++ List.replicate 12 0, by decide⟩

/-- Over the socket it registers topic 7; over the fast path it is dropped. -/
theorem paddedRegister_differs :
    relayXdpProg 8446 paddedRegister = .redirect ∧ ValidUdp paddedRegister ∧
      socketHands paddedRegister = some (⟨0x0A000002, 2⟩, [0x52, 0x01, 7, 0, 0, 0]) ∧
      (xdpHands paddedRegister).map (fun h => (h.src, h.payload paddedRegister)) =
        some (⟨0x0A000002, 2⟩, [0x52, 0x01, 7, 0, 0, 0] ++ List.replicate 12 0) ∧
      (xdpHands paddedRegister).map (fun h => (h.src, h.payload paddedRegister)) ≠
        socketHands paddedRegister ∧
      decodeRelayRegister [0x52, 0x01, 7, 0, 0, 0] = some 7 ∧
      decodeRelayRegister ([0x52, 0x01, 7, 0, 0, 0] ++ List.replicate 12 0) = none := by
  refine ⟨by decide, ⟨by decide, by decide, by decide, by decide, by decide, by decide⟩, by decide,
    by decide, by decide, by decide, by decide⟩

end Relink.Relay
