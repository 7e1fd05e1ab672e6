import Mathlib.Algebra.Order.BigOperators.Group.List
import Mathlib.Algebra.Order.Ring.Nat
import Flowd.Input

/-!
# Runs of `process_input`

The worker calls `process_input` once for each datagram the poll loop reports, for as long as
it runs. A run is the list of what the environment supplies to those calls (`Flowd.Input`):
the clocks, the allocator, and what `recvfrom` returns. `processInputs` makes the calls in
order; `Registry.inputs` is the same run on the list of records.

`Peers.Inv.processInputs` lifts the one-call refinement of `Flowd.Input` to whole runs: from a
registry that satisfies the invariant every call succeeds, the invariant holds after each, and
the run does to the records what `Registry.inputs` does. The properties of runs in
`Flowd.History.Lru` and `Flowd.History.Counters` are proved on lists and carried to the code
by this theorem.

## The counters are `u_int`s

`new_peer` evicts when `++num_peers > max_peers`. With `max_peers = UINT_MAX` that test is never
true, against the comment above it ("If we have overflowed our peer table, then kick out the LRU
peer"): the registry grows past `max_peers`, and `num_peers` wraps to `0` after `2 ^ 32` new
exporters (`Flowd.numPeers_wraps`). For every smaller bound the count stays exact. In the same
way `num_forced` counts forced deletions modulo `2 ^ 32`.

## Main results

* `Flowd.Peers.Inv.processInputs` — a run of the code refines the run on the list of records
* `Flowd.processInputs_consistent` — every registry a run reaches is consistent: tree and list
  in step, one node per address, `find_peer` and `dump_peers` correct, the forced deletion
  well defined, and `num_peers` the count modulo `2 ^ 32`, bounded by `max_peers` when
  `max_peers + 1` fits in a `u_int`
* `Flowd.Registry.inputs_fresh_of_lt`, `inputs_fresh_of_le` — what a run of datagrams from
  distinct new exporters leaves behind, with and without evictions
-/

namespace Flowd

/-- What the environment supplies to one call of `process_input`: the clock `gettimeofday`
reads, the allocator, the clock `time(NULL)` reads for each record, and what `recvfrom`
returns. -/
structure Input where
  now : Timeval
  calloc : Calloc
  time : ℕ → ℕ
  recv : Recv

/-- The source address of a datagram, when `addr_sa_to_xaddr` accepts it. -/
def Recv.source : Recv → Option Xaddr
  | .datagram a _ => a
  | .error => none

/-- `process_input` once per input, in order: the registry at the end, and the records handed
to `process_flow`, in order. -/
def processInputs : Peers → List Input → Option (Peers × List StoreFlowComplete)
  | peers, [] => some (peers, [])
  | peers, e :: es => do
    let (peers, flows) ← processInput peers e.calloc e.now e.time e.recv
    let (peers, flows') ← processInputs peers es
    some (peers, flows ++ flows')

/-- The records a run hands to `process_flow`, read off the verdicts. -/
def Input.records (es : List Input) : List StoreFlowComplete :=
  es.flatMap fun e => e.recv.records e.time

/-- Two runs one after the other are one run. -/
theorem processInputs_append {s s₁ s₂ : Peers} {es es' : List Input}
    {flows flows' : List StoreFlowComplete} (h : processInputs s es = some (s₁, flows))
    (h' : processInputs s₁ es' = some (s₂, flows')) :
    processInputs s (es ++ es') = some (s₂, flows ++ flows') := by
  induction es generalizing s flows with
  | nil =>
    obtain ⟨rfl, rfl⟩ := Prod.mk.inj (Option.some.inj h).symm
    simpa using h'
  | cons e es ih =>
    simp only [processInputs, Option.bind_eq_bind, Option.bind_eq_some, Option.some.injEq] at h
    obtain ⟨⟨s₀, g₀⟩, h₀, ⟨s₃, g₁⟩, h₃, he⟩ := h
    obtain ⟨rfl, rfl⟩ := Prod.mk.inj he
    simp [processInputs, h₀, ih h₃]

namespace Registry

/-- A run on the list of records. -/
def inputs (r : Registry) : List Input → Registry
  | [] => r
  | e :: es => (r.input e.now e.recv).inputs es

variable {r : Registry}

@[simp] theorem inputs_nil (r : Registry) : r.inputs [] = r := rfl

@[simp] theorem inputs_cons (r : Registry) (e : Input) (es : List Input) :
    r.inputs (e :: es) = (r.input e.now e.recv).inputs es := rfl

theorem inputs_append (r : Registry) (es es' : List Input) :
    r.inputs (es ++ es') = (r.inputs es).inputs es' := by
  induction es generalizing r <;> simp [*]

/-! ### The verdict on the list of records -/

@[simp] theorem counters_tally (r : Registry) (a : Xaddr) (now : Timeval) (v : Verdict) :
    (r.tally a now v).maxPeers = r.maxPeers ∧ (r.tally a now v).numPeers = r.numPeers ∧
      (r.tally a now v).numForced = r.numForced := by
  cases v <;> simp [tally]

theorem Inv.tally (h : r.Inv) (a : Xaddr) (now : Timeval) (v : Verdict) :
    (r.tally a now v).Inv := by
  cases v
  case unsupported => exact h
  all_goals first | exact h.bumpInvalid a | exact h.updatePeer a _ _ now

/-- Tallying a verdict against a record at the head of the list keeps the addresses. -/
theorem map_from_tally_head (h : r.Inv) {a : Xaddr} {l : List Xaddr}
    (hl : r.peers.map PeerState.from = a :: l) (now : Timeval) (v : Verdict) :
    (r.tally a now v).peers.map PeerState.from = a :: l := by
  have ha : r.Registered a := by simp [Registered, hl]
  cases v <;> simp only [tally, map_from_bumpInvalid, hl]
  rw [map_from_updatePeer h ha, hl, List.erase_cons_head]

@[simp] theorem maxPeers_input (r : Registry) (now : Timeval) (e : Recv) :
    (r.input now e).maxPeers = r.maxPeers := by
  match e with
  | .error | .datagram none _ => rfl
  | .datagram (some a) data =>
    simp only [Registry.input, counters_tally]
    split_ifs
    · rfl
    · simp only [Registry.newPeer, Registry.makeRoom]; split_ifs <;> rfl

@[simp] theorem maxPeers_inputs (r : Registry) (es : List Input) :
    (r.inputs es).maxPeers = r.maxPeers := by
  induction es generalizing r <;> simp [*]

theorem Inv.input (h : r.Inv) (now : Timeval) : ∀ e, (r.input now e).Inv
  | .error => h
  | .datagram none _ => h
  | .datagram (some a) _ => by
    refine Inv.tally ?_ a now _
    split_ifs with ha
    exacts [h, h.newPeer ha now]

theorem Inv.inputs (h : r.Inv) (es : List Input) : (r.inputs es).Inv := by
  induction es generalizing r with
  | nil => exact h
  | cons e es ih => exact ih (h.input e.now e.recv)

/-- A datagram from an address with no record: `makeRoom`, and the new record at the head,
whatever the verdict. -/
theorem Inv.input_fresh (h : r.Inv) {a : Xaddr} (ha : ¬ r.Registered a) (now : Timeval)
    (data : List UInt8) :
    (r.input now (.datagram (some a) data)).peers.map PeerState.from =
        a :: r.makeRoom.peers.map PeerState.from ∧
      (r.input now (.datagram (some a) data)).numPeers = r.makeRoom.numPeers ∧
      (r.input now (.datagram (some a) data)).numForced = r.makeRoom.numForced := by
  simp only [Registry.input, if_neg ha]
  refine ⟨map_from_tally_head (h.newPeer ha now) rfl now _, ?_, ?_⟩ <;>
    simp only [counters_tally] <;> rfl

/-! ### Datagrams from distinct new exporters -/

theorem snoc_source {es : List Input} {e : Input}
    (hsrc : ∀ e' ∈ es ++ [e], ∃ a data, e'.recv = .datagram (some a) data) :
    ∃ a data, e.recv = .datagram (some a) data ∧
      (es ++ [e]).filterMap (·.recv.source) = es.filterMap (·.recv.source) ++ [a] := by
  obtain ⟨a, data, he⟩ := hsrc e (by simp)
  exact ⟨a, data, he, by simp [List.filterMap_append, he, Recv.source]⟩

/-- A run of datagrams from distinct sources under a bound that fits a `u_int`: the registry
holds the last `max_peers` sources, most recent first, and every source beyond the first
`max_peers` has cost a forced deletion, counted modulo `2 ^ 32`. -/
theorem inputs_fresh_of_lt {maxPeers : ℕ} (hmax : 0 < maxPeers) (hlt : maxPeers < 2 ^ 32 - 1)
    {es : List Input} (hsrc : ∀ e ∈ es, ∃ a data, e.recv = .datagram (some a) data)
    (hnd : (es.filterMap (·.recv.source)).Nodup) :
    ((init maxPeers).inputs es).peers.map PeerState.from =
        (es.filterMap (·.recv.source)).reverse.take maxPeers ∧
      ((init maxPeers).inputs es).numPeers = min (es.filterMap (·.recv.source)).length maxPeers ∧
      ((init maxPeers).inputs es).numForced =
        ((es.filterMap (·.recv.source)).length - maxPeers) % 2 ^ 32 := by
  induction es using List.reverseRecOn with
  | nil => simp [init]
  | append_singleton es e ih =>
    obtain ⟨a, data, he, hs⟩ := snoc_source hsrc
    rw [hs] at hnd ⊢
    obtain ⟨hL, hN, hF⟩ := ih (fun e' h' => hsrc e' (List.mem_append_left _ h'))
      (hnd.sublist (List.sublist_append_left _ _))
    have ha : ¬ ((init maxPeers).inputs es).Registered a := fun h' => by
      rw [Registered, hL] at h'
      exact (List.nodup_append.1 hnd).2.2 (List.mem_reverse.1 (List.mem_of_mem_take h'))
        (List.mem_singleton_self a)
    obtain ⟨h₁, h₂, h₃⟩ := ((inv_init hmax).inputs es).input_fresh ha e.now data
    rw [inputs_append, inputs_cons, inputs_nil, he, h₁, h₂, h₃]
    have hm : ((init maxPeers).inputs es).maxPeers = maxPeers := by simp [init]
    simp only [makeRoom, hm, hN, uintInc, uintDec, List.reverse_append, List.reverse_singleton,
      List.singleton_append, List.length_append, List.length_singleton]
    rw [hF]
    by_cases hev : maxPeers ≤ (es.filterMap (·.recv.source)).length
    · rw [if_pos (by omega)]
      dsimp only
      refine ⟨?_, by omega, by omega⟩
      obtain ⟨m, rfl⟩ : ∃ m, maxPeers = m + 1 := ⟨maxPeers - 1, by omega⟩
      rw [List.map_dropLast, hL, List.dropLast_eq_take, List.length_take, List.take_take,
        List.take_succ_cons, List.length_reverse]
      congr 2
      omega
    · rw [if_neg (by omega)]
      dsimp only
      refine ⟨?_, by omega, by omega⟩
      rw [hL, List.take_of_length_le (by simp; omega), List.take_of_length_le (by simp; omega)]

/-- A run of datagrams from distinct sources when `max_peers = UINT_MAX`: `new_peer` never
evicts, and the registry holds every source, most recent first. -/
theorem inputs_fresh_of_le {maxPeers : ℕ} (hmax : 0 < maxPeers) (hge : 2 ^ 32 - 1 ≤ maxPeers)
    {es : List Input} (hsrc : ∀ e ∈ es, ∃ a data, e.recv = .datagram (some a) data)
    (hnd : (es.filterMap (·.recv.source)).Nodup) :
    ((init maxPeers).inputs es).peers.map PeerState.from =
        (es.filterMap (·.recv.source)).reverse ∧ ((init maxPeers).inputs es).numForced = 0 := by
  induction es using List.reverseRecOn with
  | nil => simp [init]
  | append_singleton es e ih =>
    obtain ⟨a, data, he, hs⟩ := snoc_source hsrc
    rw [hs] at hnd ⊢
    obtain ⟨hL, hF⟩ := ih (fun e' h' => hsrc e' (List.mem_append_left _ h'))
      (hnd.sublist (List.sublist_append_left _ _))
    have ha : ¬ ((init maxPeers).inputs es).Registered a := fun h' => by
      rw [Registered, hL] at h'
      exact (List.nodup_append.1 hnd).2.2 (List.mem_reverse.1 h') (List.mem_singleton_self a)
    obtain ⟨h₁, -, h₃⟩ := ((inv_init hmax).inputs es).input_fresh ha e.now data
    rw [inputs_append, inputs_cons, inputs_nil, he, h₁, h₃]
    have hm : ((init maxPeers).inputs es).maxPeers = maxPeers := by simp [init]
    have hu : ¬ maxPeers < uintInc ((init maxPeers).inputs es).numPeers := by
      simp only [uintInc]; omega
    simp only [makeRoom, hm, hu, if_false, hL, hF, List.reverse_append, List.reverse_singleton,
      List.singleton_append, and_self]

end Registry

/-! ### Runs of the code refine runs on the list of records -/

namespace Peers

variable {s : Peers}

@[simp] theorem abs_init (maxPeers : ℕ) (heap : Ptr → PeerState) :
    (init maxPeers heap).abs = Registry.init maxPeers := rfl

/-- **A run of `process_input`** from a registry that satisfies the invariant: every call
succeeds, the invariant holds at the end, the records handed to `process_flow` are those of
the verdicts, and the registry is read as `Registry.inputs` says. -/
theorem Inv.processInputs (h : Inv s) (es : List Input) :
    ∃ s', Flowd.processInputs s es = some (s', Input.records es) ∧ Inv s' ∧
      s'.abs = s.abs.inputs es := by
  induction es generalizing s with
  | nil => exact ⟨s, rfl, h, rfl⟩
  | cons e es ih =>
    obtain ⟨s₁, h₁, hi₁, ha₁⟩ := h.processInput e.calloc e.now e.time e.recv
    obtain ⟨s₂, h₂, hi₂, ha₂⟩ := ih hi₁
    refine ⟨s₂, ?_, hi₂, by rw [ha₂, ha₁]; rfl⟩
    simp [Flowd.processInputs, h₁, h₂, Input.records]

end Peers

/-! ### Runs of concrete datagrams -/

/-- An allocator that hands out the pointer after the largest one in use. -/
def Calloc.aboveAll : Calloc :=
  ⟨fun l => l.sum + 1, fun _ hl => Nat.not_succ_le_self _ (List.le_sum_of_mem hl)⟩

/-- One empty datagram from each source, all at time zero. -/
def emptyDatagrams (srcs : List Xaddr) : List Input :=
  srcs.map fun a => ⟨⟨0, 0⟩, Calloc.aboveAll, fun _ => 0, .datagram (some a) []⟩

/-- The datagram `v5OneFlow` from `a`, at time zero. -/
def oneFlowDatagram (a : Xaddr) : Input :=
  ⟨⟨0, 0⟩, Calloc.aboveAll, fun _ => 0, .datagram (some a) v5OneFlow⟩

theorem source_emptyDatagrams (srcs : List Xaddr) :
    ∀ e ∈ emptyDatagrams srcs, ∃ a data, e.recv = .datagram (some a) data := by
  simp [emptyDatagrams]

theorem filterMap_emptyDatagrams (srcs : List Xaddr) :
    (emptyDatagrams srcs).filterMap (·.recv.source) = srcs := by
  simp [emptyDatagrams, List.filterMap_map, Function.comp_def, Recv.source]

/-- **Every registry a run reaches is consistent.** From the empty registry of `main`, with any
`max_peers ≥ 1`, any run of `process_input` succeeds and ends with the tree and the list
holding the same nodes, each once, one node per address, `find_peer` and `dump_peers` correct,
a `TAILQ_LAST` to delete whenever the next `new_peer` must evict, and `num_peers` the number of
registered peers modulo `2 ^ 32`, at most `max_peers` unless `max_peers = UINT_MAX`. -/
theorem processInputs_consistent {maxPeers : ℕ} (hmax : 0 < maxPeers) (heap : Ptr → PeerState)
    (es : List Input) :
    ∃ s' flows, processInputs (Peers.init maxPeers heap) es = some (s', flows) ∧
      s'.peerTree.toList.Perm s'.peerList ∧ s'.peerList.Nodup ∧
      (∀ p ∈ s'.peerList, ∀ q ∈ s'.peerList, s'.key p = s'.key q → p = q) ∧
      s'.numPeers = s'.peerList.length % 2 ^ 32 ∧
      (maxPeers < 2 ^ 32 - 1 → s'.peerList.length ≤ maxPeers) ∧
      (∀ a p, (s'.findPeer a).2 = some p ↔ p ∈ s'.peerList ∧ s'.key p = a) ∧
      (∀ a, (s'.findPeer a).2 = none ↔ ¬ s'.Registered a) ∧
      (s'.dumpPeers.2.lines.map Prod.snd).Perm (s'.peerList.map s'.heap) ∧
      ((s'.dumpPeers.2.lines.map Prod.snd).map PeerState.from).Pairwise (· < ·) ∧
      (s'.maxPeers < uintInc s'.numPeers → ∃ v s₁, s'.peerList.getLast? = some v ∧
        s'.makeRoom = some s₁ ∧ s₁.peerList = s'.peerList.erase v ∧ v ∉ s₁.peerTree.toList) := by
  obtain ⟨s', hrun, h, habs⟩ := (Peers.inv_init hmax heap).processInputs es
  have hm : s'.maxPeers = maxPeers := by simpa using congrArg Registry.maxPeers habs
  refine ⟨s', _, hrun, h.perm, h.nodup, fun p hp q hq => h.key_inj hp hq, h.numPeers_eq,
    fun hlt => hm ▸ h.bounded.resolve_right (by omega),
    Peers.findPeer_eq_some_iff h, Peers.findPeer_eq_none_iff h, (Peers.dumpPeers_spec h).1,
    (Peers.dumpPeers_spec h).2.1, fun hev => ?_⟩
  obtain ⟨v, hv, s₁, h₁, hl, hlist, -⟩ := h.makeRoom_evict hev
  refine ⟨v, s₁, hv, h₁, hlist, fun hmem => ?_⟩
  rw [hl.perm.mem_iff, hlist] at hmem
  exact h.nodup.not_mem_erase hmem

/-- Three exporters and room for two. -/
theorem processInputs_consistent_two :
    ∃ s' flows, processInputs (Peers.init 2 fun _ => Peers.freshPeer (.v4 0) ⟨0, 0⟩)
        (emptyDatagrams [.v4 1, .v4 2, .v4 3]) = some (s', flows) ∧ s'.peerList.length ≤ 2 := by
  obtain ⟨s', flows, h, -, -, -, -, hb, -⟩ :=
    processInputs_consistent (by decide : 0 < 2) (fun _ => Peers.freshPeer (.v4 0) ⟨0, 0⟩)
      (emptyDatagrams [.v4 1, .v4 2, .v4 3])
  exact ⟨s', flows, h, hb (by decide)⟩

/-- The IPv6 exporters `::0`, …, `::(n - 1)` are distinct. -/
theorem nodup_range_v6 {n : ℕ} (hn : n ≤ 2 ^ 128) :
    ((List.range n).map fun i => Xaddr.v6 (BitVec.ofNat 128 i)).Nodup :=
  (List.nodup_range _).map_on fun x hx y hy hxy => by
    have := congrArg BitVec.toNat (Xaddr.v6.inj hxy)
    simp only [BitVec.toNat_ofNat] at this
    rwa [Nat.mod_eq_of_lt (lt_of_lt_of_le (List.mem_range.1 hx) hn),
      Nat.mod_eq_of_lt (lt_of_lt_of_le (List.mem_range.1 hy) hn)] at this

/-- With `max_peers = UINT_MAX`, one datagram from each of `2 ^ 32` IPv6 exporters: the test
`++num_peers > max_peers` never fires, so no peer is deleted, `2 ^ 32` peers stay registered,
one more than `max_peers`, and `num_peers` has wrapped to `0`. -/
theorem numPeers_wraps :
    ∃ s' flows, processInputs (Peers.init (2 ^ 32 - 1) fun _ => Peers.freshPeer (.v4 0) ⟨0, 0⟩)
        (emptyDatagrams ((List.range (2 ^ 32)).map fun i => .v6 (BitVec.ofNat 128 i))) =
        some (s', flows) ∧ s'.peerList.length = 2 ^ 32 ∧ s'.maxPeers < s'.peerList.length ∧
      s'.numForced = 0 ∧ s'.numPeers = 0 := by
  obtain ⟨s', hrun, h, habs⟩ := (Peers.inv_init (show 0 < 2 ^ 32 - 1 by decide)
    fun _ => Peers.freshPeer (.v4 0) ⟨0, 0⟩).processInputs
    (emptyDatagrams ((List.range (2 ^ 32)).map fun i => .v6 (BitVec.ofNat 128 i)))
  obtain ⟨hL, hF⟩ := Registry.inputs_fresh_of_le (show 0 < 2 ^ 32 - 1 by decide) le_rfl
    (source_emptyDatagrams _)
    (by rw [filterMap_emptyDatagrams]; exact nodup_range_v6 (n := 2 ^ 32) (by decide))
  rw [← Peers.abs_init (2 ^ 32 - 1) fun _ => Peers.freshPeer (.v4 0) ⟨0, 0⟩, ← habs] at hL hF
  have hlen : s'.peerList.length = 2 ^ 32 := by
    simpa [filterMap_emptyDatagrams] using congrArg List.length hL
  have hm : s'.maxPeers = 2 ^ 32 - 1 := by simpa using congrArg Registry.maxPeers habs
  exact ⟨s', _, hrun, hlen, by omega, by simpa using hF,
    by rw [h.numPeers_eq, hlen, Nat.mod_self]⟩

end Flowd
