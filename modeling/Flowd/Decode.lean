import Flowd.Netflow
import Flowd.Peers.Basic

/-!
# The NetFlow v1, v5 and v7 decoders

`process_netflow_v1`, `process_netflow_v5` and `process_netflow_v7` are one function written
three times: the same three checks on the datagram, `update_peer`, and a loop that builds one
`struct store_flow_complete` per flow record and hands it to `process_flow`. The model writes
the shared part once, `Flowd.processNetflow`, over the version's geometry and its record
builder, and each decoder is that function applied to its own constants and builder.

The builders differ where the source differs: v.1 records have the protocol, TOS and TCP-flags
bytes at other offsets and carry no AS information, v.1 masks out `AS_INFO` and
`FLOW_ENGINE_INFO`, and v.7 copies only the flow sequence of the flow-engine block, leaving the
engine type and id zero.

A decoder returns the registry and the list of records it hands to `process_flow`, in the
order of the calls. `process_flow` touches neither the registry nor the buffer, so taking it
out of the loop changes nothing but the order of the log writes relative to `update_peer`,
which is unobservable.

## Main results

* `Flowd.processNetflow_of_accepted`, `processNetflow_of_rejected` — the outcome of the shared
  part on a buffer holding exactly the bytes received: a datagram that passes the three checks
  updates the peer and yields one record per flow, any other increments `ninvalid`
* `Flowd.Version.flowAt_eq` — the record each decoder builds, field by field
* `Flowd.Version.flowAt_take` — a record depends only on the version header and on its own
  flow record
-/

namespace Flowd

/-! ### Building one record

As in the source, a decoder reads the header through a pointer to the start of the packet
(`nfv_hdr`) and the `i`-th flow record through a pointer `offset` bytes further on (`nfv_flow`);
the model passes the bytes from each pointer on, `hdr` and `rec`. -/

/-- `tcp_flags`, `protocol` and `tos` of the record. -/
def readPft (L : FlowLayout) (rec : List UInt8) : Option (ℕ × ℕ × ℕ) := do
  let tcpFlags ← u8 rec L.tcpFlags
  let protocol ← u8 rec L.protocol
  let tos ← u8 rec L.tos
  pure (tcpFlags, protocol, tos)

/-- `src_ip`, `dest_ip` and `nexthop_ip` of the record. -/
def readAddrs (L : FlowLayout) (rec : List UInt8) : Option (ℕ × ℕ × ℕ) := do
  let srcIp ← be32 rec L.srcIp
  let destIp ← be32 rec L.destIp
  let nexthopIp ← be32 rec L.nexthopIp
  pure (srcIp, destIp, nexthopIp)

/-- `src_port` and `dest_port` of the record. -/
def readPorts (L : FlowLayout) (rec : List UInt8) : Option (ℕ × ℕ) := do
  let srcPort ← be16 rec L.srcPort
  let destPort ← be16 rec L.destPort
  pure (srcPort, destPort)

/-- `flow_octets` and `flow_packets` of the record. -/
def readCounters (L : FlowLayout) (rec : List UInt8) : Option (ℕ × ℕ) := do
  let flowOctets ← be32 rec L.flowOctets
  let flowPackets ← be32 rec L.flowPackets
  pure (flowOctets, flowPackets)

/-- `if_index_in` and `if_index_out` of the record. -/
def readIfIndices (L : FlowLayout) (rec : List UInt8) : Option (ℕ × ℕ) := do
  let ifIndexIn ← be16 rec L.ifIndexIn
  let ifIndexOut ← be16 rec L.ifIndexOut
  pure (ifIndexIn, ifIndexOut)

/-- Modelled from the spec: `uptime_ms`, `time_sec`, `time_nanosec` and `c.version` of the
header, at the same offsets in the three header layouts. -/
def readAgentInfo (hdr : List UInt8) : Option (ℕ × ℕ × ℕ × ℕ) := do
  let uptimeMs ← be32 hdr 4
  let timeSec ← be32 hdr 8
  let timeNanosec ← be32 hdr 12
  let version ← be16 hdr 0
  pure (uptimeMs, timeSec, timeNanosec, version)

/-- `flow_start` and `flow_finish` of the record. -/
def readTimes (L : FlowLayout) (rec : List UInt8) : Option (ℕ × ℕ) := do
  let flowStart ← be32 rec L.flowStart
  let flowFinish ← be32 rec L.flowFinish
  pure (flowStart, flowFinish)

/-- The assignments every decoder makes in the same way: the record starts from the mask
`fields`, `recv_secs` is `time(NULL)`, `agent_addr` the datagram's source, the three addresses
are `AF_INET` ones from the record, the counters are widened to 64 bits
(`store_htonll(ntohl(...))`), and the agent-info block comes from the header. Members no
decoder sets stay zero, as after `bzero`. -/
def mkFlow (fields : UInt32) (flowSource : Xaddr) (recvSecs : ℕ) (pft addrs : ℕ × ℕ × ℕ)
    (ports counters ifIndices : ℕ × ℕ) (agentInfo : ℕ × ℕ × ℕ × ℕ) (times : ℕ × ℕ) :
    StoreFlowComplete :=
  { fields := fields, tag := 0, recvSecs := recvSecs,
    tcpFlags := pft.1, protocol := pft.2.1, tos := pft.2.2, agentAddr := flowSource,
    srcAddr := .v4 (BitVec.ofNat 32 addrs.1), dstAddr := .v4 (BitVec.ofNat 32 addrs.2.1),
    gatewayAddr := .v4 (BitVec.ofNat 32 addrs.2.2), srcPort := ports.1, dstPort := ports.2,
    flowOctets := counters.1, flowPackets := counters.2,
    ifIndexIn := ifIndices.1, ifIndexOut := ifIndices.2,
    sysUptimeMs := agentInfo.1, timeSec := agentInfo.2.1, timeNanosec := agentInfo.2.2.1,
    netflowVersion := agentInfo.2.2.2, flowStart := times.1, flowFinish := times.2,
    srcAs := 0, dstAs := 0, srcMask := 0, dstMask := 0, engineType := 0, engineId := 0,
    flowSequence := 0 }

/-- The part of the loop body every decoder shares, for the record `rec` laid out as `L` and
the header `hdr`: the reads, in the order of the assignments, and then the assignments. -/
def baseFlow (L : FlowLayout) (fields : UInt32) (hdr rec : List UInt8) (flowSource : Xaddr)
    (recvSecs : ℕ) : Option StoreFlowComplete := do
  let pft ← readPft L rec
  let addrs ← readAddrs L rec
  let ports ← readPorts L rec
  let counters ← readCounters L rec
  let ifIndices ← readIfIndices L rec
  let agentInfo ← readAgentInfo hdr
  let times ← readTimes L rec
  pure (mkFlow fields flowSource recvSecs pft addrs ports counters ifIndices agentInfo times)

/-- Modelled from the spec: the AS members of `struct NF5_FLOW` and `struct NF7_FLOW`, which the
two layouts place alike: `src_as`, `dest_as`, `src_mask`, `dst_mask`. -/
def asInfo (rec : List UInt8) (flow : StoreFlowComplete) : Option StoreFlowComplete := do
  let srcAs ← be16 rec 40
  let dstAs ← be16 rec 42
  let srcMask ← u8 rec 44
  let dstMask ← u8 rec 45
  pure { flow with srcAs := srcAs, dstAs := dstAs, srcMask := srcMask, dstMask := dstMask }

/-- The mask `process_netflow_v1` starts each record with. -/
def nf1Fields : UInt32 :=
  StoreField.all &&& ~~~StoreField.tag &&& ~~~StoreField.srcAddr6 &&& ~~~StoreField.dstAddr6 &&&
    ~~~StoreField.gatewayAddr6 &&& ~~~StoreField.asInfo &&& ~~~StoreField.flowEngineInfo

/-- The mask `process_netflow_v5` starts each record with. -/
def nf5Fields : UInt32 :=
  StoreField.all &&& ~~~StoreField.tag &&& ~~~StoreField.srcAddr6 &&& ~~~StoreField.dstAddr6 &&&
    ~~~StoreField.gatewayAddr6

/-- The mask `process_netflow_v7` starts each record with. -/
def nf7Fields : UInt32 :=
  StoreField.all &&& ~~~StoreField.tag &&& ~~~StoreField.srcAddr6 &&& ~~~StoreField.dstAddr6 &&&
    ~~~StoreField.gatewayAddr6

/-- The loop body of `process_netflow_v1`: the record for the flow record `rec`. -/
def nf1Flow (hdr rec : List UInt8) (flowSource : Xaddr) (recvSecs : ℕ) :
    Option StoreFlowComplete :=
  baseFlow nf1FlowLayout nf1Fields hdr rec flowSource recvSecs

/-- The loop body of `process_netflow_v5`: the common members, the AS block, and the engine type,
engine id and flow sequence from the header. -/
def nf5Flow (hdr rec : List UInt8) (flowSource : Xaddr) (recvSecs : ℕ) :
    Option StoreFlowComplete := do
  let flow ← baseFlow nf5FlowLayout nf5Fields hdr rec flowSource recvSecs
  let flow ← asInfo rec flow
  let engineType ← u8 hdr 20
  let engineId ← u8 hdr 21
  let flowSequence ← be32 hdr 16
  pure { flow with engineType := engineType, engineId := engineId, flowSequence := flowSequence }

/-- The loop body of `process_netflow_v7`: as v.5, but of the flow-engine block only the flow
sequence. -/
def nf7Flow (hdr rec : List UInt8) (flowSource : Xaddr) (recvSecs : ℕ) :
    Option StoreFlowComplete := do
  let flow ← baseFlow nf7FlowLayout nf7Fields hdr rec flowSource recvSecs
  let flow ← asInfo rec flow
  let flowSequence ← be32 hdr 16
  pure { flow with flowSequence := flowSequence }

/-! ### The decoders -/

/-- What `process_netflow_v1`, `_v5` and `_v7` share, for the geometry `g`, the version number
`version` and the loop body `flowAt`, which reads the header from `pkt` and the `i`-th flow
record from `NFv_PACKET_SIZE(i)` bytes further on. `pkt` holds the bytes received and `len` their
number;
`time i` is what `time(NULL)` returns in the `i`-th iteration. The result is the registry and
the records handed to `process_flow`, in order; `none` if a read falls outside the bytes
received. -/
def processNetflow (g : Geometry) (version : ℕ)
    (flowAt : List UInt8 → List UInt8 → Xaddr → ℕ → Option StoreFlowComplete) (pkt : List UInt8)
    (len : ℕ) (flowSource : Xaddr) (peer : Ptr) (peers : Peers) (now : Timeval)
    (time : ℕ → ℕ) : Option (Peers × List StoreFlowComplete) :=
  if len < g.headerSize then some (peers.bumpInvalid peer, [])
  else do
    let nflows ← be16 pkt 2
    if nflows = 0 ∨ nflows > g.maxFlows then some (peers.bumpInvalid peer, [])
    else if len ≠ g.packetSize nflows then some (peers.bumpInvalid peer, [])
    else do
      let peers := peers.updatePeer peer nflows version now
      let flows ← (List.range nflows).mapM fun i =>
        flowAt pkt (pkt.drop (g.packetSize i)) flowSource (time i)
      some (peers, flows)

/-- `process_netflow_v1`. -/
def processNetflowV1 (pkt : List UInt8) (len : ℕ) (flowSource : Xaddr) (peer : Ptr)
    (peers : Peers) (now : Timeval) (time : ℕ → ℕ) : Option (Peers × List StoreFlowComplete) :=
  processNetflow nf1 1 nf1Flow pkt len flowSource peer peers now time

/-- `process_netflow_v5`. -/
def processNetflowV5 (pkt : List UInt8) (len : ℕ) (flowSource : Xaddr) (peer : Ptr)
    (peers : Peers) (now : Timeval) (time : ℕ → ℕ) : Option (Peers × List StoreFlowComplete) :=
  processNetflow nf5 5 nf5Flow pkt len flowSource peer peers now time

/-- `process_netflow_v7`. -/
def processNetflowV7 (pkt : List UInt8) (len : ℕ) (flowSource : Xaddr) (peer : Ptr)
    (peers : Peers) (now : Timeval) (time : ℕ → ℕ) : Option (Peers × List StoreFlowComplete) :=
  processNetflow nf7 7 nf7Flow pkt len flowSource peer peers now time

/-! ### What a builder makes -/

/-- The record `baseFlow` makes when all its reads succeed. -/
def baseRecord (L : FlowLayout) (fields : UInt32) (hdr rec : List UInt8) (flowSource : Xaddr)
    (recvSecs : ℕ) : StoreFlowComplete :=
  mkFlow fields flowSource recvSecs
    (getU8 rec L.tcpFlags, getU8 rec L.protocol, getU8 rec L.tos)
    (getBe32 rec L.srcIp, getBe32 rec L.destIp, getBe32 rec L.nexthopIp)
    (getBe16 rec L.srcPort, getBe16 rec L.destPort)
    (getBe32 rec L.flowOctets, getBe32 rec L.flowPackets)
    (getBe16 rec L.ifIndexIn, getBe16 rec L.ifIndexOut)
    (getBe32 hdr 4, getBe32 hdr 8, getBe32 hdr 12, getBe16 hdr 0)
    (getBe32 rec L.flowStart, getBe32 rec L.flowFinish)

section Builders

variable {L : FlowLayout} {R H : ℕ} {hdr rec : List UInt8} {fields : UInt32} {a : Xaddr}
  {t : ℕ}

theorem baseFlow_eq (hL : L.Fits R) (hh : 16 ≤ hdr.length) (hr : R ≤ rec.length) :
    baseFlow L fields hdr rec a t = some (baseRecord L fields hdr rec a t) := by
  unfold FlowLayout.Fits at hL
  simp (disch := omega) only [baseFlow, readPft, readAddrs, readPorts, readCounters,
    readIfIndices, readAgentInfo, readTimes, u8_of_lt, be16_of_le, be32_of_le, Option.pure_def,
    Option.bind_eq_bind, Option.some_bind, baseRecord]

/-- `baseFlow` reads nothing past the first 16 bytes of the header and the record's `R`. -/
theorem baseFlow_take (hL : L.Fits R) (hH : 16 ≤ H) :
    baseFlow L fields (hdr.take H) (rec.take R) a t = baseFlow L fields hdr rec a t := by
  unfold FlowLayout.Fits at hL
  simp (disch := omega) only [baseFlow, readPft, readAddrs, readPorts, readCounters,
    readIfIndices, readAgentInfo, readTimes, u8_take, be16_take, be32_take]

end Builders

/-! ### The checks and the loop -/

/-- `mapM` of a function that succeeds everywhere on the list. -/
theorem mapM_eq_some_map {α β : Type} {f : α → Option β} {g : α → β} :
    ∀ {l : List α}, (∀ x ∈ l, f x = some (g x)) → l.mapM f = some (l.map g)
  | [], _ => rfl
  | x :: l, h => by
    rw [List.mapM_cons, h x (List.mem_cons_self x l),
      mapM_eq_some_map fun y hy => h y (List.mem_cons_of_mem x hy)]
    rfl

section Loop

variable {g : Geometry} {version : ℕ}
  {flowAt : List UInt8 → List UInt8 → Xaddr → ℕ → Option StoreFlowComplete} {pkt : List UInt8}
  {a : Xaddr} {peer : Ptr} {peers : Peers} {now : Timeval} {time : ℕ → ℕ}

/-- The record of the `i`-th flow lies within a packet of `n` flows. -/
theorem flowSize_le_length_drop {n i : ℕ} (hi : i < n) (hlen : pkt.length = g.packetSize n) :
    g.flowSize ≤ (pkt.drop (g.packetSize i)).length := by
  have : (i + 1) * g.flowSize ≤ n * g.flowSize := Nat.mul_le_mul_right _ hi
  simp only [List.length_drop, hlen, Geometry.packetSize, Nat.succ_mul] at *
  omega

/-- **A datagram that fails a check** counts against the peer and yields no record. -/
theorem processNetflow_of_rejected (hH : 4 ≤ g.headerSize)
    (hrej : pkt.length < g.headerSize ∨ getBe16 pkt 2 = 0 ∨ g.maxFlows < getBe16 pkt 2 ∨
      pkt.length ≠ g.packetSize (getBe16 pkt 2)) :
    processNetflow g version flowAt pkt pkt.length a peer peers now time =
      some (peers.bumpInvalid peer, []) := by
  unfold processNetflow
  split_ifs with h₁
  · rfl
  · simp only [be16_of_le (show 2 + 2 ≤ pkt.length by omega), Option.bind_eq_bind,
      Option.some_bind]
    split_ifs with h₂ h₃ <;> first | rfl | omega

/-- **A datagram that passes the three checks** updates the peer and yields one record per
flow, the `i`-th built from the record `NFv_PACKET_SIZE(i)` bytes in. -/
theorem processNetflow_of_accepted {val : List UInt8 → ℕ → StoreFlowComplete}
    (hH : 4 ≤ g.headerSize)
    (hflow : ∀ rec t, g.headerSize ≤ pkt.length → g.flowSize ≤ rec.length →
      flowAt pkt rec a t = some (val rec t))
    (hn : 0 < getBe16 pkt 2 ∧ getBe16 pkt 2 ≤ g.maxFlows)
    (hlen : pkt.length = g.packetSize (getBe16 pkt 2)) :
    processNetflow g version flowAt pkt pkt.length a peer peers now time =
      some (peers.updatePeer peer (getBe16 pkt 2) version now,
        (List.range (getBe16 pkt 2)).map fun i => val (pkt.drop (g.packetSize i)) (time i)) := by
  have hHl : g.headerSize ≤ pkt.length := by rw [hlen, Geometry.packetSize]; omega
  have hmap := mapM_eq_some_map (l := List.range (getBe16 pkt 2))
    (f := fun i => flowAt pkt (pkt.drop (g.packetSize i)) a (time i))
    (g := fun i => val (pkt.drop (g.packetSize i)) (time i))
    fun i hi => hflow _ _ hHl (flowSize_le_length_drop (List.mem_range.1 hi) hlen)
  unfold processNetflow
  simp only [if_neg (show ¬ pkt.length < g.headerSize by omega),
    be16_of_le (show 2 + 2 ≤ pkt.length by omega), Option.bind_eq_bind, Option.some_bind]
  rw [if_neg (by omega), if_neg (by omega)]
  simp only [hmap, Option.some_bind]

end Loop

/-! ### The three versions -/

/-- The versions `process_input` has a decoder for. -/
inductive Version
  | v1
  | v5
  | v7
  deriving DecidableEq, Repr

namespace Version

/-- The value of the version field. -/
def number : Version → ℕ
  | v1 => 1
  | v5 => 5
  | v7 => 7

/-- The version a value of the version field selects in `process_input`'s `switch`. -/
def ofNumber : ℕ → Option Version
  | 1 => some v1
  | 5 => some v5
  | 7 => some v7
  | _ => none

def geometry : Version → Geometry
  | v1 => nf1
  | v5 => nf5
  | v7 => nf7

/-- The layout of the version's flow record, `struct NFv_FLOW`. -/
def layout : Version → FlowLayout
  | v1 => nf1FlowLayout
  | v5 => nf5FlowLayout
  | v7 => nf7FlowLayout

/-- The decoder's loop body. -/
def flowAt : Version → List UInt8 → List UInt8 → Xaddr → ℕ → Option StoreFlowComplete
  | v1 => nf1Flow
  | v5 => nf5Flow
  | v7 => nf7Flow

/-- The mask each record starts with. -/
def fields : Version → UInt32
  | v1 => nf1Fields
  | v5 => nf5Fields
  | v7 => nf7Fields

/-- The decoder. -/
def decoder : Version → List UInt8 → ℕ → Xaddr → Ptr → Peers → Timeval → (ℕ → ℕ) →
    Option (Peers × List StoreFlowComplete)
  | v1 => processNetflowV1
  | v5 => processNetflowV5
  | v7 => processNetflowV7

/-- The record the loop body makes from the header `hdr` and the flow record `rec` when its
reads succeed. -/
def record : Version → List UInt8 → List UInt8 → Xaddr → ℕ → StoreFlowComplete
  | v1, hdr, rec, a, t => baseRecord nf1FlowLayout nf1Fields hdr rec a t
  | v5, hdr, rec, a, t => { baseRecord nf5FlowLayout nf5Fields hdr rec a t with
      srcAs := getBe16 rec 40, dstAs := getBe16 rec 42, srcMask := getU8 rec 44,
      dstMask := getU8 rec 45, engineType := getU8 hdr 20, engineId := getU8 hdr 21,
      flowSequence := getBe32 hdr 16 }
  | v7, hdr, rec, a, t => { baseRecord nf7FlowLayout nf7Fields hdr rec a t with
      srcAs := getBe16 rec 40, dstAs := getBe16 rec 42, srcMask := getU8 rec 44,
      dstMask := getU8 rec 45, flowSequence := getBe32 hdr 16 }

@[simp] theorem ofNumber_number (v : Version) : ofNumber v.number = some v := by
  cases v <;> rfl

theorem number_of_ofNumber {n : ℕ} {v : Version} (h : ofNumber n = some v) : v.number = n := by
  unfold ofNumber at h
  split at h <;> first | (cases h; rfl) | cases h

theorem decoder_eq (v : Version) : v.decoder = processNetflow v.geometry v.number v.flowAt := by
  cases v <;> rfl

theorem headerSize_ge (v : Version) : 16 ≤ v.geometry.headerSize := by
  cases v <;> decide

@[simp] theorem record_fields (v : Version) (hdr rec : List UInt8) (a : Xaddr) (t : ℕ) :
    (v.record hdr rec a t).fields = v.fields := by
  cases v <;> rfl

@[simp] theorem record_agentAddr (v : Version) (hdr rec : List UInt8) (a : Xaddr) (t : ℕ) :
    (v.record hdr rec a t).agentAddr = a := by
  cases v <;> rfl

@[simp] theorem record_srcAddr (v : Version) (hdr rec : List UInt8) (a : Xaddr) (t : ℕ) :
    (v.record hdr rec a t).srcAddr = .v4 (BitVec.ofNat 32 (getBe32 rec 0)) := by
  cases v <;> rfl

@[simp] theorem record_dstAddr (v : Version) (hdr rec : List UInt8) (a : Xaddr) (t : ℕ) :
    (v.record hdr rec a t).dstAddr = .v4 (BitVec.ofNat 32 (getBe32 rec 4)) := by
  cases v <;> rfl

/-- The masks the decoders start from: `STORE_FIELD_ALL` without the tag and the IPv6
addresses, and for v.1 also without the AS and flow-engine information. -/
theorem fields_eq (v : Version) :
    v.fields = StoreField.all &&& ~~~(StoreField.tag ||| StoreField.srcAddr6 |||
      StoreField.dstAddr6 ||| StoreField.gatewayAddr6 |||
      if v = .v1 then StoreField.asInfo ||| StoreField.flowEngineInfo else 0) := by
  cases v <;> decide

/-- **The record each decoder builds**, when its reads succeed. -/
theorem flowAt_eq (v : Version) {hdr rec : List UInt8} {a : Xaddr} {t : ℕ}
    (hh : v.geometry.headerSize ≤ hdr.length) (hr : v.geometry.flowSize ≤ rec.length) :
    v.flowAt hdr rec a t = some (v.record hdr rec a t) := by
  have h16 : 16 ≤ hdr.length := v.headerSize_ge.trans hh
  cases v
  · exact baseFlow_eq flowLayouts_fit.1 h16 hr
  · have : 24 ≤ hdr.length := hh
    have : 48 ≤ rec.length := hr
    simp (disch := omega) only [flowAt, record, nf5Flow, baseFlow_eq flowLayouts_fit.2.1 h16 hr,
      asInfo, u8_of_lt, be16_of_le, be32_of_le, Option.pure_def, Option.bind_eq_bind,
      Option.some_bind]
  · have : 24 ≤ hdr.length := hh
    have : 52 ≤ rec.length := hr
    simp (disch := omega) only [flowAt, record, nf7Flow, baseFlow_eq flowLayouts_fit.2.2 h16 hr,
      asInfo, u8_of_lt, be16_of_le, be32_of_le, Option.pure_def, Option.bind_eq_bind,
      Option.some_bind]

/-- **A record depends on nothing but the version header and its own flow record.** -/
theorem flowAt_take (v : Version) (hdr rec : List UInt8) (a : Xaddr) (t : ℕ) :
    v.flowAt (hdr.take v.geometry.headerSize) (rec.take v.geometry.flowSize) a t =
      v.flowAt hdr rec a t := by
  have hH : 16 ≤ v.geometry.headerSize := v.headerSize_ge
  cases v
  · exact baseFlow_take flowLayouts_fit.1 hH
  · have : nf5.headerSize = 24 := rfl
    have : nf5.flowSize = 48 := rfl
    simp (disch := omega) only [geometry, flowAt, nf5Flow, baseFlow_take flowLayouts_fit.2.1,
      asInfo, u8_take, be16_take, be32_take]
  · have : nf7.headerSize = 24 := rfl
    have : nf7.flowSize = 52 := rfl
    simp (disch := omega) only [geometry, flowAt, nf7Flow, baseFlow_take flowLayouts_fit.2.2,
      asInfo, u8_take, be16_take, be32_take]

end Version

end Flowd
