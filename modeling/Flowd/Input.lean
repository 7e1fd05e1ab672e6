import Flowd.Decode
import Flowd.Peers.Refinement

/-!
# `process_input` and `process_flow`

`process_input` receives one datagram into a 2048-byte buffer, finds or creates the peer for
its source, and dispatches on the version field to a decoder, which hands each record it builds
to `process_flow`. `process_flow` drops a record whose source and destination families differ,
runs the filter, and passes what it accepts to `store_put_flow`.

The filter rule language and the log writer are not among the sources; `filter_flow` is a
parameter of the configuration (its contract, from the spec, is `Flowd.FilterAction`), and what
`process_flow` passes to `store_put_flow` is its result here; `Flowd.Log` writes it.

## The verdict

`Flowd.classify` says, from the datagram as sent and in the terms of the spec, what
`process_input` does with it: too short for the common header, an unsupported version, a
version whose checks fail, or a valid packet of `n` flows. `Flowd.dispatch_recvBuf` is the
bridge: on the buffer `recvfrom` fills, the code does exactly what the verdict says. Everything
else here follows from it.

## Main results

* `Flowd.dispatch_recvBuf` — `process_input` after the peer lookup, for every datagram
* `Flowd.Peers.Inv.processInput` — `process_input` keeps the registry invariant and refines
  `Flowd.Registry.input`, the same step on the list of records
-/

namespace Flowd

/-! ### `process_flow` -/

/-- Modelled from the spec: what `filter_flow` decides for a flow: discard it, or accept it and
possibly set its tag. -/
inductive FilterAction
  | accept (tag : Option ℕ)
  | discard

/-- The part of `struct flowd_config` the worker reads: the sockets of `listen_addrs`, in list
order, `filter_flow` over `filter_list`, and `store_mask`. -/
structure FlowdConfig where
  listenFds : List ℕ
  filterFlow : StoreFlowComplete → FilterAction
  storeMask : UInt32

/-- Modelled from the spec: the filter step of `process_flow`, `none` when `filter_flow`
discards the flow. A tag the filter sets is marked present in the flow's fields
(`STORE_FIELD_TAG`), so that the writer persists it when the store mask selects the tag. -/
def applyFilter (conf : FlowdConfig) (flow : StoreFlowComplete) : Option StoreFlowComplete :=
  match conf.filterFlow flow with
  | .discard => none
  | .accept none => some flow
  | .accept (some tag) => some { flow with tag := tag, fields := flow.fields ||| StoreField.tag }

/-- `process_flow`: the flow it passes to `store_put_flow` (with `conf.storeMask`), or `none`
when it drops it. Converting `fields` and `recv_secs` to network order with `htonl` keeps their
values. The verbose-mode log line is not modelled. -/
def processFlow (conf : FlowdConfig) (flow : StoreFlowComplete) : Option StoreFlowComplete :=
  if flow.srcAddr.af ≠ flow.dstAddr.af then none
  else applyFilter conf flow

theorem processFlow_of_af_eq {conf : FlowdConfig} {flow : StoreFlowComplete}
    (h : flow.srcAddr.af = flow.dstAddr.af) : processFlow conf flow = applyFilter conf flow :=
  if_neg (not_not.2 h)

/-! ### `process_input` -/

/-- What `recvfrom` gives `process_input`: an error (`EINTR` is retried, so this is any other),
or a datagram with its source address, `none` where `addr_sa_to_xaddr` rejects it. -/
inductive Recv
  | error
  | datagram (src : Option Xaddr) (data : List UInt8)

/-- The bytes `recvfrom` stores: the datagram, cut to the buffer. -/
def recvBuf (data : List UInt8) : List UInt8 := data.take recvBufSize

/-- The head of `process_input`: `find_peer`, and `new_peer` when it finds nothing. -/
def lookupPeer (peers : Peers) (addr : Xaddr) (calloc : Calloc) (now : Timeval) :
    Option (Peers × Ptr) :=
  match peers.findPeer addr with
  | (peers, some peer) => some (peers, peer)
  | (peers, none) => peers.newPeer addr calloc now

/-- The rest of `process_input`, on the `len` bytes received into `buf`: the check against the
common header and the `switch` on the version. -/
def dispatch (buf : List UInt8) (len : ℕ) (flowSource : Xaddr) (peer : Ptr) (peers : Peers)
    (now : Timeval) (time : ℕ → ℕ) : Option (Peers × List StoreFlowComplete) :=
  if len < nfHeaderCommonSize then some (peers.bumpInvalid peer, [])
  else do
    let version ← be16 buf 0
    match Version.ofNumber version with
    | some v => v.decoder buf len flowSource peer peers now time
    | none => some (peers, [])

/-- `process_input`, with `calloc` and the clocks of the environment: the registry afterwards
and the records handed to `process_flow`, in order. -/
def processInput (peers : Peers) (calloc : Calloc) (now : Timeval) (time : ℕ → ℕ) :
    Recv → Option (Peers × List StoreFlowComplete)
  | .error => some (peers, [])
  | .datagram none _ => some (peers, [])
  | .datagram (some flowSource) data => do
    let (peers, peer) ← lookupPeer peers flowSource calloc now
    let buf := recvBuf data
    dispatch buf buf.length flowSource peer peers now time

/-! ### The verdict on a datagram -/

/-- What happens to a datagram, as the spec describes it. -/
inductive Verdict
  /-- Shorter than the common header. -/
  | short
  /-- A version with no decoder. -/
  | unsupported
  /-- A version with a decoder, failing one of its checks. -/
  | invalid (v : Version)
  /-- A valid packet of version `v` with `nflows` flows. -/
  | valid (v : Version) (nflows : ℕ)
  deriving DecidableEq, Repr

/-- The verdict on a datagram of `L` bytes, as sent: too short if `L < 4`; otherwise by the
big-endian version field, and for a decoded version, valid exactly when the count `n` at bytes
2 and 3 has `1 ≤ n ≤ MAX_v` and `L = H_v + n * R_v`. -/
def classify (data : List UInt8) : Verdict :=
  if data.length < nfHeaderCommonSize then .short
  else match Version.ofNumber (getBe16 data 0) with
    | none => .unsupported
    | some v =>
      if 1 ≤ getBe16 data 2 ∧ getBe16 data 2 ≤ v.geometry.maxFlows ∧
          data.length = v.geometry.packetSize (getBe16 data 2) then .valid v (getBe16 data 2)
      else .invalid v

/-- The records a valid packet of version `v` and `n` flows yields, the `i`-th built from the
flow record `NFv_PACKET_SIZE(i)` bytes in. -/
def validRecords (v : Version) (n : ℕ) (data : List UInt8) (flowSource : Xaddr)
    (time : ℕ → ℕ) : List StoreFlowComplete :=
  (List.range n).map fun i =>
    v.record data (data.drop (v.geometry.packetSize i)) flowSource (time i)

theorem Version.number_inj {v w : Version} : v.number = w.number ↔ v = w := by
  cases v <;> cases w <;> decide

section Classify

variable {data : List UInt8} {v : Version} {n : ℕ}

theorem classify_eq_valid_iff : classify data = .valid v n ↔
    4 ≤ data.length ∧ getBe16 data 0 = v.number ∧ n = getBe16 data 2 ∧ 1 ≤ n ∧
      n ≤ v.geometry.maxFlows ∧ data.length = v.geometry.packetSize n := by
  unfold classify nfHeaderCommonSize
  by_cases hs : data.length < 4
  · simp [hs]
  rw [if_neg hs]
  cases hw : Version.ofNumber (getBe16 data 0) with
  | none =>
    refine ⟨(fun h => nomatch h), fun ⟨_, h, _⟩ => ?_⟩
    simp [h] at hw
  | some w =>
    have hw' := Version.number_of_ofNumber hw
    dsimp only
    split_ifs with hc
    · constructor
      · rintro ⟨⟩; exact ⟨by omega, hw'.symm, rfl, hc⟩
      · rintro ⟨-, h0, rfl, -⟩
        rw [Version.number_inj.1 (hw'.trans h0)]
    · refine ⟨(fun h => nomatch h), ?_⟩
      rintro ⟨-, h0, rfl, h⟩
      exact absurd (Version.number_inj.1 (hw'.trans h0) ▸ h) hc

theorem classify_eq_invalid_iff : classify data = .invalid v ↔
    4 ≤ data.length ∧ getBe16 data 0 = v.number ∧ ¬ (1 ≤ getBe16 data 2 ∧
      getBe16 data 2 ≤ v.geometry.maxFlows ∧
      data.length = v.geometry.packetSize (getBe16 data 2)) := by
  unfold classify nfHeaderCommonSize
  by_cases hs : data.length < 4
  · simp [hs]
  rw [if_neg hs]
  cases hw : Version.ofNumber (getBe16 data 0) with
  | none =>
    refine ⟨(fun h => nomatch h), fun ⟨_, h, _⟩ => ?_⟩
    simp [h] at hw
  | some w =>
    have hw' := Version.number_of_ofNumber hw
    dsimp only
    split_ifs with hc
    · refine ⟨(fun h => nomatch h), ?_⟩
      rintro ⟨-, h0, h⟩
      exact absurd (Version.number_inj.1 (hw'.trans h0) ▸ hc) h
    · constructor
      · rintro ⟨⟩; exact ⟨by omega, hw'.symm, hc⟩
      · rintro ⟨-, h0, -⟩
        rw [Version.number_inj.1 (hw'.trans h0)]

end Classify

/-- A packet of at most `MAX_v` flows fits the receive buffer. -/
theorem Version.packetSize_lt (v : Version) {n : ℕ} (hn : n ≤ v.geometry.maxFlows) :
    v.geometry.packetSize n < recvBufSize := by
  have hmax : v.geometry.packetSize v.geometry.maxFlows < recvBufSize := by
    cases v
    exacts [packetSize_maxFlows_lt.1, packetSize_maxFlows_lt.2.1, packetSize_maxFlows_lt.2.2]
  have : n * v.geometry.flowSize ≤ v.geometry.maxFlows * v.geometry.flowSize :=
    Nat.mul_le_mul_right _ hn
  simp only [Geometry.packetSize] at *
  omega

/-- **`process_input` after the peer lookup**, on the buffer `recvfrom` fills from a datagram of
any length and content: the verdict says what happens. -/
theorem dispatch_recvBuf (data : List UInt8) (a : Xaddr) (peer : Ptr) (peers : Peers)
    (now : Timeval) (time : ℕ → ℕ) :
    dispatch (recvBuf data) (recvBuf data).length a peer peers now time =
      match classify data with
      | .short => some (peers.bumpInvalid peer, [])
      | .unsupported => some (peers, [])
      | .invalid _ => some (peers.bumpInvalid peer, [])
      | .valid v n => some (peers.updatePeer peer n v.number now, validRecords v n data a time) := by
  have hlen : (recvBuf data).length = min recvBufSize data.length := List.length_take _ _
  have hhdr : getBe16 (recvBuf data) 0 = getBe16 data 0 := getBe16_take (by simp [recvBufSize])
  have hcnt : getBe16 (recvBuf data) 2 = getBe16 data 2 := getBe16_take (by simp [recvBufSize])
  simp only [recvBufSize] at hlen
  unfold dispatch classify
  simp only [nfHeaderCommonSize]
  by_cases hs : data.length < 4
  · rw [if_pos hs, if_pos (by omega)]
  rw [if_neg hs, if_neg (by omega), be16_of_le (by omega), Option.bind_eq_bind, Option.some_bind,
    hhdr]
  cases hv : Version.ofNumber (getBe16 data 0) with
  | none => rfl
  | some v =>
    have hH := v.headerSize_ge
    simp only [v.decoder_eq]
    split_ifs with hok
    · -- a valid packet fits the buffer, so the buffer holds all of it
      have hbuf : recvBuf data = data := List.take_of_length_le (by
        have := v.packetSize_lt hok.2.1; simp only [recvBufSize] at this ⊢; omega)
      rw [hbuf] at hcnt ⊢
      exact processNetflow_of_accepted (by omega) (fun rec t hh hr => v.flowAt_eq hh hr)
        (by omega) (by omega)
    · refine processNetflow_of_rejected (by omega) ?_
      rw [hcnt]
      by_cases hm : 1 ≤ getBe16 data 2 ∧ getBe16 data 2 ≤ v.geometry.maxFlows
      · have := v.packetSize_lt hm.2
        simp only [recvBufSize] at this
        omega
      · omega

/-! ### Reads, checks and records -/

/-- **No read of `process_input` or of a decoder falls outside the bytes received**, whatever
the datagram's length and content: the buffer holds its first `min(L, 2048)` bytes, and a read
past them would make the result `none`. -/
theorem dispatch_ne_none (data : List UInt8) (a : Xaddr) (peer : Ptr) (peers : Peers)
    (now : Timeval) (time : ℕ → ℕ) :
    dispatch (recvBuf data) (recvBuf data).length a peer peers now time ≠ none := by
  rw [dispatch_recvBuf]
  cases classify data <;> simp

theorem npackets_updatePeer (peers : Peers) (p : Ptr) (n v : ℕ) (now : Timeval) :
    ((peers.updatePeer p n v now).heap p).npackets = (peers.heap p).npackets + 1 := by
  simp [PeerState.touch]

theorem updatePeer_ne_bumpInvalid (peers : Peers) (p : Ptr) (n v : ℕ) (now : Timeval) :
    peers.updatePeer p n v now ≠ peers.bumpInvalid p := fun h => by
  have hp : ((peers.updatePeer p n v now).heap p).npackets =
      ((peers.bumpInvalid p).heap p).npackets :=
    congrArg (fun s : Peers => (s.heap p).npackets) h
  rw [npackets_updatePeer, Peers.heap_bumpInvalid, Function.update_same] at hp
  exact uint64_add_one_ne _ hp

theorem updatePeer_ne_self (peers : Peers) (p : Ptr) (n v : ℕ) (now : Timeval) :
    peers.updatePeer p n v now ≠ peers := fun h => by
  have hp : ((peers.updatePeer p n v now).heap p).npackets = (peers.heap p).npackets :=
    congrArg (fun s : Peers => (s.heap p).npackets) h
  rw [npackets_updatePeer] at hp
  exact uint64_add_one_ne _ hp

/-- **The three checks decide acceptance.** For each version `v` with a decoder and each
datagram of `L` bytes, `process_input` calls `update_peer` once and hands records to
`process_flow` exactly when `L ≥ 4`, the version field is `v`, the count `n` has
`1 ≤ n ≤ MAX_v`, and `L = H_v + n * R_v`. A rejected datagram whose first two bytes read `v`,
whether too short for the common header (two or three bytes) or failing a check of the decoder,
hands on nothing, adds one to the peer's `ninvalid`, and changes nothing else. -/
theorem dispatch_accepts_iff (v : Version) (data : List UInt8) (a : Xaddr) (peer : Ptr)
    (peers : Peers) (now : Timeval) (time : ℕ → ℕ) :
    ((∃ fl, dispatch (recvBuf data) (recvBuf data).length a peer peers now time =
        some (peers.updatePeer peer (getBe16 data 2) v.number now, fl) ∧
        fl.length = getBe16 data 2) ↔
      4 ≤ data.length ∧ getBe16 data 0 = v.number ∧ 1 ≤ getBe16 data 2 ∧
        getBe16 data 2 ≤ v.geometry.maxFlows ∧
        data.length = v.geometry.packetSize (getBe16 data 2)) ∧
    (getBe16 data 0 = v.number →
      ¬ (4 ≤ data.length ∧ 1 ≤ getBe16 data 2 ∧ getBe16 data 2 ≤ v.geometry.maxFlows ∧
        data.length = v.geometry.packetSize (getBe16 data 2)) →
      ∃ s', dispatch (recvBuf data) (recvBuf data).length a peer peers now time = some (s', []) ∧
        s'.peerList = peers.peerList ∧ s'.peerTree = peers.peerTree ∧
        s'.heap = Function.update peers.heap peer
          { peers.heap peer with ninvalid := (peers.heap peer).ninvalid + 1 } ∧
        s'.maxPeers = peers.maxPeers ∧ s'.numPeers = peers.numPeers ∧
        s'.numForced = peers.numForced) := by
  rw [dispatch_recvBuf]
  refine ⟨⟨?_, fun h => ?_⟩, fun h0 hn => ?_⟩
  · rintro ⟨fl, hd, -⟩
    cases hc : classify data with
    | short => simp only [hc, Option.some.injEq, Prod.mk.injEq] at hd
               exact absurd hd.1.symm (updatePeer_ne_bumpInvalid _ _ _ _ _)
    | unsupported => simp only [hc, Option.some.injEq, Prod.mk.injEq] at hd
                     exact absurd hd.1.symm (updatePeer_ne_self _ _ _ _ _)
    | invalid w => simp only [hc, Option.some.injEq, Prod.mk.injEq] at hd
                   exact absurd hd.1.symm (updatePeer_ne_bumpInvalid _ _ _ _ _)
    | valid w m =>
      obtain ⟨h4, hw, rfl, h⟩ := classify_eq_valid_iff.1 hc
      simp only [hc, Option.some.injEq, Prod.mk.injEq] at hd
      have := congrArg (fun s : Peers => (s.heap peer).lastVersion) hd.1
      simp only [Peers.heap_updatePeer, Function.update_same, PeerState.touch] at this
      rw [← Version.number_inj.1 this]
      exact ⟨h4, hw, h⟩
  · obtain ⟨h4, hv, h⟩ := h
    rw [classify_eq_valid_iff.2 ⟨h4, hv, rfl, h⟩]
    exact ⟨_, rfl, by simp [validRecords]⟩
  · by_cases h4 : 4 ≤ data.length
    · rw [classify_eq_invalid_iff.2 ⟨h4, h0, fun h => hn ⟨h4, h⟩⟩]
      exact ⟨_, rfl, rfl, rfl, rfl, rfl, rfl, rfl⟩
    · rw [show classify data = .short from if_pos (by rw [nfHeaderCommonSize]; omega)]
      exact ⟨_, rfl, rfl, rfl, rfl, rfl, rfl, rfl⟩

/-- **What the decoders hand to `process_flow`.** For an accepted datagram of version `v` with
`n` flows from source `a`, `process_flow` is called `n` times, in packet order. The `i`-th record
is built by the decoder's loop body from the version header and the `R_v` bytes of flow record
`i` alone, and every member it sets is read from them at the offset of `struct NFv_FLOW` or of
the header: its agent address is `a`; its three addresses are `AF_INET` ones from the record;
its ports, interface indices and flow times are the record's, and so are its TCP flags, protocol
and TOS, at the offsets of the version's layout; its counters are the record's 32-bit packet and
octet counts; its agent-info block comes from the header; and its mask is `STORE_FIELD_ALL`
without the tag and the IPv6 addresses, and for v.1 also without the AS and flow-engine
information. Hence `process_flow`'s family check never drops one of them, and the records
written are exactly those the filter accepts. -/
theorem dispatch_valid_records (v : Version) (data : List UInt8) (a : Xaddr) (peer : Ptr)
    (peers : Peers) (now : Timeval) (time : ℕ → ℕ) (conf : FlowdConfig)
    (hacc : 4 ≤ data.length ∧ getBe16 data 0 = v.number ∧ 1 ≤ getBe16 data 2 ∧
      getBe16 data 2 ≤ v.geometry.maxFlows ∧
      data.length = v.geometry.packetSize (getBe16 data 2)) :
    ∃ fl, dispatch (recvBuf data) (recvBuf data).length a peer peers now time =
        some (peers.updatePeer peer (getBe16 data 2) v.number now, fl) ∧
      fl.length = getBe16 data 2 ∧
      (∀ i (hi : i < fl.length),
        let flowRec := data.drop (v.geometry.packetSize i)
        v.flowAt (data.take v.geometry.headerSize) (flowRec.take v.geometry.flowSize) a (time i) =
          some fl[i] ∧
        fl[i].agentAddr = a ∧ fl[i].recvSecs = time i ∧
        fl[i].srcAddr = .v4 (BitVec.ofNat 32 (getBe32 flowRec 0)) ∧
        fl[i].dstAddr = .v4 (BitVec.ofNat 32 (getBe32 flowRec 4)) ∧
        fl[i].gatewayAddr = .v4 (BitVec.ofNat 32 (getBe32 flowRec 8)) ∧
        fl[i].srcPort = getBe16 flowRec 32 ∧ fl[i].dstPort = getBe16 flowRec 34 ∧
        fl[i].tcpFlags = getU8 flowRec v.layout.tcpFlags ∧
        fl[i].protocol = getU8 flowRec v.layout.protocol ∧ fl[i].tos = getU8 flowRec v.layout.tos ∧
        fl[i].ifIndexIn = getBe16 flowRec 12 ∧ fl[i].ifIndexOut = getBe16 flowRec 14 ∧
        fl[i].flowStart = getBe32 flowRec 24 ∧ fl[i].flowFinish = getBe32 flowRec 28 ∧
        fl[i].flowPackets = getBe32 flowRec 16 ∧ fl[i].flowOctets = getBe32 flowRec 20 ∧
        fl[i].sysUptimeMs = getBe32 data 4 ∧ fl[i].timeSec = getBe32 data 8 ∧
        fl[i].timeNanosec = getBe32 data 12 ∧ fl[i].netflowVersion = v.number ∧
        fl[i].fields = StoreField.all &&& ~~~(StoreField.tag ||| StoreField.srcAddr6 |||
          StoreField.dstAddr6 ||| StoreField.gatewayAddr6 |||
          if v = .v1 then StoreField.asInfo ||| StoreField.flowEngineInfo else 0)) ∧
      fl.filterMap (processFlow conf) = fl.filterMap (applyFilter conf) := by
  obtain ⟨h4, hv, h⟩ := hacc
  refine ⟨validRecords v (getBe16 data 2) data a time, ?_, by simp [validRecords], ?_, ?_⟩
  · rw [dispatch_recvBuf, classify_eq_valid_iff.2 ⟨h4, hv, rfl, h⟩]
  · intro i hi
    simp only [validRecords, List.length_map, List.length_range] at hi
    simp only [validRecords, List.getElem_map, List.getElem_range]
    have hH : v.geometry.headerSize ≤ data.length := by
      rw [h.2.2, Geometry.packetSize]; omega
    refine ⟨by rw [Version.flowAt_take, v.flowAt_eq hH (flowSize_le_length_drop hi h.2.2)], ?_⟩
    rw [← hv, Version.record_fields, ← v.fields_eq]
    cases v <;> exact ⟨rfl, rfl, rfl, rfl, rfl, rfl, rfl, rfl, rfl, rfl, rfl, rfl, rfl, rfl, rfl,
      rfl, rfl, rfl, rfl, rfl, rfl⟩
  · refine List.filterMap_congr fun f hf => processFlow_of_af_eq ?_
    obtain ⟨i, -, rfl⟩ := List.mem_map.1 hf
    simp

/-- A NetFlow v.5 datagram with one flow: version `5` and count `1`, every other byte zero. -/
def v5OneFlow : List UInt8 := [0, 5, 0, 1] ++ List.replicate 68 0

/-- A v.5 datagram of one flow from `0.0.0.0` passes the checks and yields one record. -/
theorem dispatch_valid_records_v5 :
    ∃ s fl, dispatch (recvBuf v5OneFlow) (recvBuf v5OneFlow).length (.v4 0) 0
        (Peers.init 1 fun _ => Peers.freshPeer (.v4 0) ⟨0, 0⟩) ⟨0, 0⟩ (fun _ => 0) =
        some (s, fl) ∧ fl.length = 1 := by
  obtain ⟨fl, hd, hl, -⟩ := dispatch_valid_records .v5 v5OneFlow
    (.v4 0) 0 (Peers.init 1 fun _ => Peers.freshPeer (.v4 0) ⟨0, 0⟩) ⟨0, 0⟩ (fun _ => 0)
    ⟨[], fun _ => .discard, 0⟩ (by decide)
  exact ⟨_, fl, hd, hl⟩

/-! ### The same step on the list of records -/

/-- The records a datagram hands to `process_flow`. -/
def Recv.records (time : ℕ → ℕ) : Recv → List StoreFlowComplete
  | .datagram (some a) data =>
    match classify data with
    | .valid v n => validRecords v n data a time
    | _ => []
  | _ => []

/-- What the verdict on a datagram from `a` does to the records: count it as invalid, count it
as valid (which moves the record to the head), or nothing. -/
def Registry.tally (r : Registry) (a : Xaddr) (now : Timeval) : Verdict → Registry
  | .short | .invalid _ => r.bumpInvalid a
  | .unsupported => r
  | .valid v n => r.updatePeer a n v.number now

/-- `process_input` on the list of records: a source seen for the first time gets a record, and
the verdict is tallied against it. -/
def Registry.input (r : Registry) (now : Timeval) : Recv → Registry
  | .datagram (some a) data =>
    (if r.Registered a then r else r.newPeer a now).tally a now (classify data)
  | _ => r

namespace Peers

variable {s : Peers}

/-- The peer lookup of `process_input` finds the node for the address, or links in a new one. -/
theorem Inv.lookupPeer (h : Inv s) (a : Xaddr) (calloc : Calloc) (now : Timeval) :
    ∃ s₁ p, lookupPeer s a calloc now = some (s₁, p) ∧ Inv s₁ ∧ p ∈ s₁.peerList ∧
      s₁.key p = a ∧ s₁.abs = if s.abs.Registered a then s.abs else s.abs.newPeer a now := by
  unfold Flowd.lookupPeer
  by_cases ha : s.Registered a
  · obtain ⟨p, hp, hk⟩ := ha
    have hf : (s.findPeer a).2 = some p := (findPeer_eq_some_iff h a p).2 ⟨hp, hk⟩
    rw [show s.findPeer a = ((s.findPeer a).1, some p) from Prod.ext rfl hf]
    exact ⟨_, p, rfl, h.findPeer a, by simpa using hp, by simpa using hk,
      by simp [(registered_abs a).2 ⟨p, hp, hk⟩]⟩
  · have hf : (s.findPeer a).2 = none := (findPeer_eq_none_iff h a).2 ha
    rw [show s.findPeer a = ((s.findPeer a).1, none) from Prod.ext rfl hf]
    obtain ⟨s', q, hs', hinv, habs, hq, hk⟩ :=
      (h.findPeer a).newPeer (by simpa [Registered] using ha) calloc now
    exact ⟨s', q, hs', hinv, hq, hk, by simp [habs, (registered_abs a).not.2 ha]⟩

/-- **`process_input` keeps the registry invariant** and does on the list of records what
`Registry.input` does, handing `process_flow` the records of a valid datagram. -/
theorem Inv.processInput (h : Inv s) (calloc : Calloc) (now : Timeval) (time : ℕ → ℕ)
    (ev : Recv) : ∃ s', Flowd.processInput s calloc now time ev = some (s', ev.records time) ∧
      Inv s' ∧ s'.abs = s.abs.input now ev := by
  match ev with
  | .error => exact ⟨s, rfl, h, rfl⟩
  | .datagram none _ => exact ⟨s, rfl, h, rfl⟩
  | .datagram (some a) data =>
    obtain ⟨s₁, p, hl, h₁, hp, hk, habs⟩ := h.lookupPeer a calloc now
    simp only [Flowd.processInput, hl, Option.bind_eq_bind, Option.some_bind, dispatch_recvBuf,
      Recv.records, Registry.input, ← habs]
    cases classify data with
    | short | invalid _ =>
      exact ⟨_, rfl, h₁.bumpInvalid p, by rw [Registry.tally, h₁.abs_bumpInvalid hp, hk]⟩
    | unsupported => exact ⟨_, rfl, h₁, rfl⟩
    | valid v n =>
      exact ⟨_, rfl, h₁.updatePeer hp n v.number now,
        by rw [Registry.tally, h₁.abs_updatePeer hp, hk]⟩

end Peers

/-- The records `process_input` hands on are those of the verdict, whatever the registry holds:
the lookup only decides whether the call completes. -/
theorem processInput_records {s s' : Peers} {calloc : Calloc} {now : Timeval} {time : ℕ → ℕ}
    {ev : Recv} {flows : List StoreFlowComplete}
    (h : processInput s calloc now time ev = some (s', flows)) : flows = ev.records time := by
  match ev, h with
  | .error, h | .datagram none _, h => exact (Prod.mk.inj (Option.some.inj h)).2.symm
  | .datagram (some a) data, h =>
    simp only [processInput, Option.bind_eq_bind, Option.bind_eq_some, dispatch_recvBuf] at h
    obtain ⟨_, -, hd⟩ := h
    simp only [Recv.records]
    cases hc : classify data <;> simp only [hc] at hd <;>
      exact (Prod.mk.inj (Option.some.inj hd)).2.symm

end Flowd
