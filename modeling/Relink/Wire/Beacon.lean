import Relink.Wire.Directory

/-! Multicast beacons.

`beacon.hpp`: the registration request's layout with a port per topic group, and an
optional extension that an older decoder ignores. -/
namespace Relink.Wire
open LittleEndian

def kMaxBeaconTopics : Nat := 128
def kCapFlagShmLocalIpc : UInt32 := 0x01

inductive BeaconEncodeResult where
  | tooManyTopics
  | bufferTooSmall
deriving DecidableEq, Repr

inductive BeaconDecodeResult where
  | tooShort
  | lengthMismatch
deriving DecidableEq, Repr

/-- `sizeof(BeaconPacketHeader)`. -/
def kBeaconHeaderBytes : Nat := 8

def encodeBeaconPacket (nodeIp : UInt32) (nodePort : UInt16) (topicIds : List UInt32)
    (topicCount : UInt16) (outCapacity : Nat) (nodePid : UInt32) (shmCapable : Bool) :
    Except BeaconEncodeResult Bytes :=
  if kMaxBeaconTopics < topicCount.toNat then .error .tooManyTopics
  else if outCapacity < kBeaconHeaderBytes + topicCount.toNat * 4 + 8 then .error .bufferTooSmall
  else
    .ok (u32 nodeIp ++ u16 nodePort ++ u16 topicCount ++
      topicRecord.array (topicIds.take topicCount.toNat) ++ u32 nodePid ++
      u32 (if shmCapable then kCapFlagShmLocalIpc else 0))

structure DecodedBeacon where
  nodeIp : UInt32
  nodePort : UInt16
  topicCount : UInt16
  topicIdsRaw : Bytes
  nodePid : UInt32
  shmCapable : Bool
deriving DecidableEq, Repr

def decodeBeaconPacket (buf : Bytes) : Except BeaconDecodeResult DecodedBeacon :=
  if buf.length < kBeaconHeaderBytes then .error .tooShort
  else
    let topicCount := readU16 6 buf
    let needed := kBeaconHeaderBytes + topicCount.toNat * 4
    if buf.length < needed then .error .lengthMismatch
    else
      let extended : Bool := needed + 8 ≤ buf.length
      .ok
        { nodeIp := readU32 0 buf
          nodePort := readU16 4 buf
          topicCount := topicCount
          topicIdsRaw := buf.drop kBeaconHeaderBytes
          nodePid := if extended then readU32 needed buf else 0
          shmCapable := extended && (readU32 (needed + 4) buf &&& kCapFlagShmLocalIpc) != 0 }

/-- Every beacon starts with the node's address. -/
theorem encodeBeaconPacket_head {nodeIp : UInt32} {nodePort : UInt16} {topicIds : List UInt32}
    {topicCount : UInt16} {outCapacity : Nat} {nodePid : UInt32} {shmCapable : Bool} {out : Bytes}
    (h : encodeBeaconPacket nodeIp nodePort topicIds topicCount outCapacity nodePid shmCapable =
      .ok out) :
    out.take 4 = u32 nodeIp ∧ 8 ≤ out.length := by
  unfold encodeBeaconPacket at h
  split at h
  · cases h
  split at h
  · cases h
  cases h
  simp only [List.append_assoc]
  refine ⟨List.take_left' (u32_length _), ?_⟩
  simp only [List.length_append, u32_length, u16_length]
  omega

end Relink.Wire
