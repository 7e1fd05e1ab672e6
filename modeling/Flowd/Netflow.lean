import Flowd.Addr
import Flowd.Wire

/-!
# NetFlow packets and the canonical flow record

netflow.h and store.h are not among the sources. This module models from the spec what flowd.c
uses of them:

* the geometry of each version, `sizeof(struct NFv_HEADER)`, `sizeof(struct NFv_FLOW)` and
  `NFv_MAXFLOWS`, and `NFv_PACKET_SIZE`;
* where the members the decoders read sit in a header and in a flow record: the spec requires
  the canonical Cisco layouts bit for bit, and those are what is written here;
* the `STORE_FIELD_*` bits of the field mask, as flowd assigns them;
* `struct store_flow_complete`, flattened to the members the decoders and `process_flow` set.

The maximum flow counts are the ones the spec asks implementers to check against the canonical
geometries: a full packet of each version fits the 2048-byte receive buffer with room to spare
(`Flowd.packetSize_maxFlows_lt`).
-/

namespace Flowd

/-- Modelled from the spec: `sizeof(struct NF_HEADER_COMMON)`, the version and the flow count. -/
def nfHeaderCommonSize : ℕ := 4

/-- The geometry of one NetFlow version: `sizeof(struct NFv_HEADER)`, `sizeof(struct NFv_FLOW)`
and `NFv_MAXFLOWS`. -/
structure Geometry where
  headerSize : ℕ
  flowSize : ℕ
  maxFlows : ℕ
  deriving DecidableEq, Repr

/-- `NFv_PACKET_SIZE(n)`: a header and `n` flow records. -/
def Geometry.packetSize (g : Geometry) (n : ℕ) : ℕ := g.headerSize + n * g.flowSize

/-- Modelled from the spec: NetFlow v.1, a 16-byte header and 48-byte records, at most 24. -/
def nf1 : Geometry := ⟨16, 48, 24⟩

/-- Modelled from the spec: NetFlow v.5, a 24-byte header and 48-byte records, at most 30. -/
def nf5 : Geometry := ⟨24, 48, 30⟩

/-- Modelled from the spec: NetFlow v.7, a 24-byte header and 52-byte records, at most 28. -/
def nf7 : Geometry := ⟨24, 52, 28⟩

/-- The size of the receive buffer of `process_input`. -/
def recvBufSize : ℕ := 2048

/-- A full packet of each version fits the receive buffer. -/
theorem packetSize_maxFlows_lt :
    nf1.packetSize nf1.maxFlows < recvBufSize ∧ nf5.packetSize nf5.maxFlows < recvBufSize ∧
      nf7.packetSize nf7.maxFlows < recvBufSize := by
  decide

/-- Modelled from the spec: the offsets, within a flow record, of the members of
`struct NFv_FLOW` that the decoders read. The three canonical layouts agree on all of them but
the TCP flags, protocol and TOS bytes; the AS members of v.5 and v.7 are read by
`Flowd.asInfo`. -/
structure FlowLayout where
  srcIp : ℕ := 0
  destIp : ℕ := 4
  nexthopIp : ℕ := 8
  ifIndexIn : ℕ := 12
  ifIndexOut : ℕ := 14
  flowPackets : ℕ := 16
  flowOctets : ℕ := 20
  flowStart : ℕ := 24
  flowFinish : ℕ := 28
  srcPort : ℕ := 32
  destPort : ℕ := 34
  tcpFlags : ℕ
  protocol : ℕ
  tos : ℕ
  deriving DecidableEq, Repr

/-- Modelled from the spec: `struct NF1_FLOW`, with `protocol`, `tos` and `tcp_flags` after a
16-bit pad. -/
def nf1FlowLayout : FlowLayout := { tcpFlags := 40, protocol := 38, tos := 39 }

/-- Modelled from the spec: `struct NF5_FLOW`, with `tcp_flags`, `protocol` and `tos` after an
8-bit pad. -/
def nf5FlowLayout : FlowLayout := { tcpFlags := 37, protocol := 38, tos := 39 }

/-- Modelled from the spec: `struct NF7_FLOW`, laid out as `NF5_FLOW` for these members. -/
def nf7FlowLayout : FlowLayout := { tcpFlags := 37, protocol := 38, tos := 39 }

/-- Every member of the layout lies within a record of `size` bytes. -/
def FlowLayout.Fits (L : FlowLayout) (size : ℕ) : Prop :=
  L.srcIp + 4 ≤ size ∧ L.destIp + 4 ≤ size ∧ L.nexthopIp + 4 ≤ size ∧ L.ifIndexIn + 2 ≤ size ∧
    L.ifIndexOut + 2 ≤ size ∧ L.flowPackets + 4 ≤ size ∧ L.flowOctets + 4 ≤ size ∧
    L.flowStart + 4 ≤ size ∧ L.flowFinish + 4 ≤ size ∧ L.srcPort + 2 ≤ size ∧
    L.destPort + 2 ≤ size ∧ L.tcpFlags < size ∧ L.protocol < size ∧ L.tos < size

instance (L : FlowLayout) (size : ℕ) : Decidable (L.Fits size) :=
  inferInstanceAs (Decidable (_ ∧ _))

/-- The three layouts fit their records. -/
theorem flowLayouts_fit :
    nf1FlowLayout.Fits nf1.flowSize ∧ nf5FlowLayout.Fits nf5.flowSize ∧
      nf7FlowLayout.Fits nf7.flowSize := by
  decide

/-! ### The field mask

The `STORE_FIELD_*` bits, in the order of the log's sub-records. -/

namespace StoreField

/-- Modelled from the spec: `STORE_FIELD_TAG`. -/
def tag : UInt32 := (1 : UInt32) <<< 0
/-- Modelled from the spec: `STORE_FIELD_RECV_TIME`. -/
def recvTime : UInt32 := (1 : UInt32) <<< 1
/-- Modelled from the spec: `STORE_FIELD_PROTO_FLAGS_TOS`. -/
def protoFlagsTos : UInt32 := (1 : UInt32) <<< 2
/-- Modelled from the spec: `STORE_FIELD_AGENT_ADDR4`. -/
def agentAddr4 : UInt32 := (1 : UInt32) <<< 3
/-- Modelled from the spec: `STORE_FIELD_AGENT_ADDR6`. -/
def agentAddr6 : UInt32 := (1 : UInt32) <<< 4
/-- Modelled from the spec: `STORE_FIELD_SRC_ADDR4`. -/
def srcAddr4 : UInt32 := (1 : UInt32) <<< 5
/-- Modelled from the spec: `STORE_FIELD_SRC_ADDR6`. -/
def srcAddr6 : UInt32 := (1 : UInt32) <<< 6
/-- Modelled from the spec: `STORE_FIELD_DST_ADDR4`. -/
def dstAddr4 : UInt32 := (1 : UInt32) <<< 7
/-- Modelled from the spec: `STORE_FIELD_DST_ADDR6`. -/
def dstAddr6 : UInt32 := (1 : UInt32) <<< 8
/-- Modelled from the spec: `STORE_FIELD_GATEWAY_ADDR4`. -/
def gatewayAddr4 : UInt32 := (1 : UInt32) <<< 9
/-- Modelled from the spec: `STORE_FIELD_GATEWAY_ADDR6`. -/
def gatewayAddr6 : UInt32 := (1 : UInt32) <<< 10
/-- Modelled from the spec: `STORE_FIELD_SRCDST_PORT`. -/
def srcdstPort : UInt32 := (1 : UInt32) <<< 11
/-- Modelled from the spec: `STORE_FIELD_PACKETS`. -/
def packets : UInt32 := (1 : UInt32) <<< 12
/-- Modelled from the spec: `STORE_FIELD_OCTETS`. -/
def octets : UInt32 := (1 : UInt32) <<< 13
/-- Modelled from the spec: `STORE_FIELD_IF_INDICES`. -/
def ifIndices : UInt32 := (1 : UInt32) <<< 14
/-- Modelled from the spec: `STORE_FIELD_AGENT_INFO`. -/
def agentInfo : UInt32 := (1 : UInt32) <<< 15
/-- Modelled from the spec: `STORE_FIELD_FLOW_TIMES`. -/
def flowTimes : UInt32 := (1 : UInt32) <<< 16
/-- Modelled from the spec: `STORE_FIELD_AS_INFO`. -/
def asInfo : UInt32 := (1 : UInt32) <<< 17
/-- Modelled from the spec: `STORE_FIELD_FLOW_ENGINE_INFO`. -/
def flowEngineInfo : UInt32 := (1 : UInt32) <<< 18

/-- Modelled from the spec: `STORE_FIELD_ALL`, every field. -/
def all : UInt32 := ((1 : UInt32) <<< 19) - 1

end StoreField

/-! ### The canonical flow record -/

/-- Modelled from the spec: `struct store_flow_complete`, flattened. Integer members hold the
values of their fields (see `Flowd.Wire` on byte order). -/
structure StoreFlowComplete where
  /-- `hdr.fields`, the field mask. -/
  fields : UInt32
  /-- `hdr.tag`, set by the filter. -/
  tag : ℕ
  recvSecs : ℕ
  tcpFlags : ℕ
  protocol : ℕ
  tos : ℕ
  agentAddr : Xaddr
  srcAddr : Xaddr
  dstAddr : Xaddr
  gatewayAddr : Xaddr
  srcPort : ℕ
  dstPort : ℕ
  flowPackets : ℕ
  flowOctets : ℕ
  ifIndexIn : ℕ
  ifIndexOut : ℕ
  sysUptimeMs : ℕ
  timeSec : ℕ
  timeNanosec : ℕ
  netflowVersion : ℕ
  flowStart : ℕ
  flowFinish : ℕ
  srcAs : ℕ
  dstAs : ℕ
  srcMask : ℕ
  dstMask : ℕ
  engineType : ℕ
  engineId : ℕ
  flowSequence : ℕ
  deriving DecidableEq, Repr

end Flowd
