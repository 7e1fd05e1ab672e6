import Flowd.History.Run

/-!
# The LRU order of `peer_list`

`new_peer` puts a new peer at the head of `peer_list` and `update_peer` moves a peer there when
it sends a valid datagram; nothing else reorders the list, and a forced deletion takes its tail.
So the list is ordered by the time of each peer's latest *event*, its creation or a valid
datagram, most recent first.

An event is read off the registry before the input (`Registry.touched`), and a run's events
form a log with one entry per input (`Registry.events`). `latestEvent log a` is the step of the
latest event of `a`, counted from `1`, or `0` if it has none. The order is an invariant of the
list of records (`Registry.LruOrder`), proved from what one input can do to the list of
addresses (`Registry.Inv.input_peers`) and carried to the code by `Peers.Inv.processInputs`.

## Main results

* `Flowd.Registry.Inv.input_peers` — an input either leaves the addresses alone and touches
  nothing, or puts the address it touches at the head of a sublist of the others
* `Flowd.Registry.LruOrder.inputs` — the order holds along every run
* `Flowd.lru_order` — in the code: the order, a forced deletion removes the peer whose latest
  event is the oldest, and a run of `k > max_peers` new exporters keeps the last `max_peers`
  of them with `num_forced = (k - max_peers) mod 2 ^ 32`
-/

namespace Flowd

/-- The verdict of a datagram that `update_peer` counts. -/
def Verdict.isValid : Verdict → Bool
  | .valid _ _ => true
  | _ => false

namespace Registry

/-- The address whose record an input creates or refreshes: a source seen for the first time
(`new_peer`), or the source of a valid datagram (`update_peer`). -/
def touched (r : Registry) : Recv → Option Xaddr
  | .datagram (some a) data =>
    if ¬ r.Registered a ∨ (classify data).isValid then some a else none
  | _ => none

/-- The events of a run, one entry per input, oldest first. -/
def events (r : Registry) : List Input → List (Option Xaddr)
  | [] => []
  | e :: es => r.touched e.recv :: (r.input e.now e.recv).events es

end Registry

/-- The step, counted from `1`, of the latest event of `a` in a log kept newest first; `0` if
there is none. -/
def latestRev (a : Xaddr) : List (Option Xaddr) → ℕ
  | [] => 0
  | x :: log => if x = some a then log.length + 1 else latestRev a log

/-- The step, counted from `1`, of the latest event of `a` in a log kept oldest first; `0` if
there is none. -/
def latestEvent (log : List (Option Xaddr)) (a : Xaddr) : ℕ := latestRev a log.reverse

theorem latestEvent_snoc (log : List (Option Xaddr)) (x : Option Xaddr) (a : Xaddr) :
    latestEvent (log ++ [x]) a = if x = some a then log.length + 1 else latestEvent log a := by
  simp [latestEvent, latestRev]

theorem latestEvent_le (log : List (Option Xaddr)) (a : Xaddr) : latestEvent log a ≤ log.length := by
  rw [latestEvent, ← List.length_reverse log]
  induction log.reverse with
  | nil => exact le_rfl
  | cons x log ih => simp only [latestRev, List.length_cons]; split_ifs <;> omega

example : latestEvent [some (.v4 1), none, some (.v4 2), some (.v4 1)] (.v4 1) = 4 ∧
    latestEvent [some (.v4 1), none, some (.v4 2), some (.v4 1)] (.v4 2) = 3 := by
  decide

namespace Registry

variable {r : Registry}

/-! ### What one input does to the addresses -/

theorem makeRoom_peers_sublist (r : Registry) : r.makeRoom.peers.Sublist r.peers := by
  unfold makeRoom
  split_ifs
  exacts [List.dropLast_sublist _, List.Sublist.refl _]

/-- **What an input does to the list of addresses.** Either it touches nothing and leaves the
addresses alone, or it puts the address it touches at the head of a sublist of the others. -/
theorem Inv.input_peers (h : r.Inv) (now : Timeval) (e : Recv) :
    (r.touched e = none ∧ (r.input now e).peers.map PeerState.from = r.peers.map PeerState.from) ∨
      ∃ a M, r.touched e = some a ∧ M.Sublist (r.peers.map PeerState.from) ∧ a ∉ M ∧
        (r.input now e).peers.map PeerState.from = a :: M := by
  match e with
  | .error | .datagram none _ => exact .inl ⟨rfl, rfl⟩
  | .datagram (some a) data =>
    by_cases ha : r.Registered a
    · have hin : r.input now (.datagram (some a) data) = r.tally a now (classify data) := by
        simp [Registry.input, ha]
      rw [hin]
      cases hv : classify data with
      | valid v n =>
        refine .inr ⟨a, _, by simp [touched, ha, hv, Verdict.isValid], List.erase_sublist _ _,
          h.nodup.not_mem_erase, ?_⟩
        exact map_from_updatePeer h ha n v.number now
      | short | invalid =>
        exact .inl ⟨by simp [touched, ha, hv, Verdict.isValid], map_from_bumpInvalid a⟩
      | unsupported => exact .inl ⟨by simp [touched, ha, hv, Verdict.isValid], rfl⟩
    · refine .inr ⟨a, _, by simp [touched, ha], (makeRoom_peers_sublist r).map _,
        fun hm => ha (((makeRoom_peers_sublist r).map _).subset hm),
        (h.input_fresh ha now data).1⟩

/-! ### The order -/

/-- The list is ordered by latest event, most recent first, and every registered peer has
one. -/
structure LruOrder (r : Registry) (log : List (Option Xaddr)) : Prop where
  pos : ∀ a ∈ r.peers.map PeerState.from, 0 < latestEvent log a
  ordered : (r.peers.map PeerState.from).Pairwise fun a b => latestEvent log b < latestEvent log a

theorem lruOrder_init (maxPeers : ℕ) : (init maxPeers).LruOrder [] :=
  ⟨fun _ h => by simp [init] at h, List.Pairwise.nil⟩

theorem LruOrder.input (h : r.Inv) {log : List (Option Xaddr)} (ho : r.LruOrder log)
    (now : Timeval) (e : Recv) : (r.input now e).LruOrder (log ++ [r.touched e]) := by
  rcases h.input_peers now e with ⟨ht, hp⟩ | ⟨a, M, ht, hM, ha, hp⟩
  · have hl : ∀ b, latestEvent (log ++ [r.touched e]) b = latestEvent log b := fun b => by
      simp [latestEvent_snoc, ht]
    exact ⟨by simpa [hp, hl] using ho.pos, by simpa [hp, hl] using ho.ordered⟩
  · have hl : ∀ b ∈ M, latestEvent (log ++ [r.touched e]) b = latestEvent log b := fun b hb => by
      rw [latestEvent_snoc, ht, if_neg fun hab => ha (by cases hab; exact hb)]
    have htop : latestEvent (log ++ [r.touched e]) a = log.length + 1 := by
      simp [latestEvent_snoc, ht]
    refine ⟨?_, ?_⟩ <;> rw [hp]
    · rintro b (_ | ⟨_, hb⟩)
      · omega
      · rw [hl b hb]; exact ho.pos b (hM.subset hb)
    refine List.pairwise_cons.2 ⟨fun b hb => ?_, ?_⟩
    · rw [hl b hb, htop]; have := latestEvent_le log b; omega
    · exact ((ho.ordered.sublist hM).imp_of_mem fun hb hc hbc => by rwa [hl _ hb, hl _ hc])

/-- **The LRU order holds along every run.** -/
theorem LruOrder.inputs (h : r.Inv) {log : List (Option Xaddr)} (ho : r.LruOrder log)
    (es : List Input) : (r.inputs es).LruOrder (log ++ r.events es) := by
  induction es generalizing r log with
  | nil => simpa [events] using ho
  | cons e es ih =>
    simpa [events] using ih (h.input e.now e.recv) (ho.input h e.now e.recv)

end Registry

/-! ### In the code -/

/-- **`peer_list` is in LRU order.** Along any run from the empty registry: every registered
peer has had an event, the list is ordered by strictly decreasing time of each peer's latest
event, and the tail that the next forced deletion would remove is the peer whose latest event is
the oldest. A run of datagrams from `k > max_peers` distinct new exporters leaves the last
`max_peers` of them, most recent first, and `num_forced = (k - max_peers) mod 2 ^ 32`, when
`max_peers + 1` fits in a `u_int`. -/
theorem lru_order {maxPeers : ℕ} (hmax : 0 < maxPeers) (heap : Ptr → PeerState)
    (es : List Input) :
    ∃ s' flows, processInputs (Peers.init maxPeers heap) es = some (s', flows) ∧
      let log := (Registry.init maxPeers).events es
      (∀ p ∈ s'.peerList, 0 < latestEvent log (s'.key p)) ∧
      (s'.peerList.map s'.key).Pairwise (fun a b => latestEvent log b < latestEvent log a) ∧
      (s'.maxPeers < uintInc s'.numPeers → ∃ v s₁, s'.peerList.getLast? = some v ∧
        s'.makeRoom = some s₁ ∧ s₁.peerList = s'.peerList.erase v ∧
        ∀ q ∈ s'.peerList, q ≠ v → latestEvent log (s'.key v) < latestEvent log (s'.key q)) ∧
      ((∀ e ∈ es, ∃ a data, e.recv = .datagram (some a) data) →
        (es.filterMap (·.recv.source)).Nodup → maxPeers < 2 ^ 32 - 1 →
        maxPeers < (es.filterMap (·.recv.source)).length →
        s'.numPeers = maxPeers ∧
        s'.peerList.map s'.key = (es.filterMap (·.recv.source)).reverse.take maxPeers ∧
        s'.numForced = ((es.filterMap (·.recv.source)).length - maxPeers) % 2 ^ 32) := by
  obtain ⟨s', hrun, h, habs⟩ := (Peers.inv_init hmax heap).processInputs es
  have hord := (Registry.lruOrder_init maxPeers).inputs (Registry.inv_init hmax) es
  rw [List.nil_append, ← Peers.abs_init maxPeers heap, ← habs] at hord
  have hkeys : s'.abs.peers.map PeerState.from = s'.peerList.map s'.key := by
    simp [List.map_map, Function.comp_def, Peers.key]
  have hpw := List.pairwise_map.1 (hkeys ▸ hord.ordered)
  refine ⟨s', _, hrun, fun p hp => hord.pos _ (hkeys ▸ List.mem_map_of_mem _ hp),
    hkeys ▸ hord.ordered, fun hev => ?_, fun hsrc hnd hlt hk => ?_⟩
  · obtain ⟨v, hv, s₁, h₁, -, hlist, -⟩ := h.makeRoom_evict hev
    refine ⟨v, s₁, hv, h₁, hlist, fun q hq hqv => ?_⟩
    rw [← List.dropLast_append_getLast? v hv] at hpw hq
    have hq' : q ∈ s'.peerList.dropLast := by simpa [hqv] using hq
    exact (List.pairwise_append.1 hpw).2.2 q hq' v (List.mem_singleton_self v)
  · obtain ⟨hL, hN, hF⟩ := Registry.inputs_fresh_of_lt hmax hlt hsrc hnd
    rw [← Peers.abs_init maxPeers heap, ← habs] at hL hN hF
    rw [hkeys] at hL
    exact ⟨by simpa [min_eq_right hk.le] using hN, hL, by simpa using hF⟩

/-- The eviction scenario of the spec: three exporters and room for two. -/
theorem lru_order_three :
    ∃ s' flows, processInputs (Peers.init 2 fun _ => Peers.freshPeer (.v4 0) ⟨0, 0⟩)
        (emptyDatagrams [.v4 1, .v4 2, .v4 3]) = some (s', flows) ∧
      s'.peerList.map s'.key = [.v4 3, .v4 2] ∧ s'.numForced = 1 := by
  obtain ⟨s', flows, h, -, -, -, hs⟩ := lru_order (by decide : 0 < 2)
    (fun _ => Peers.freshPeer (.v4 0) ⟨0, 0⟩) (emptyDatagrams [.v4 1, .v4 2, .v4 3])
  have hsrcs := filterMap_emptyDatagrams [.v4 1, .v4 2, .v4 3]
  obtain ⟨-, hL, hF⟩ := hs (source_emptyDatagrams _) (by rw [hsrcs]; decide) (by decide)
    (by rw [hsrcs]; decide)
  rw [hsrcs] at hL hF
  exact ⟨s', flows, h, hL, hF⟩

/-- With room for one peer, one datagram from each of `2 ^ 32 + 1` IPv6 exporters forces
`2 ^ 32` deletions, and `num_forced` ends at `0`. -/
theorem numForced_wraps :
    ∃ s' flows, processInputs (Peers.init 1 fun _ => Peers.freshPeer (.v4 0) ⟨0, 0⟩)
        (emptyDatagrams ((List.range (2 ^ 32 + 1)).map fun i => .v6 (BitVec.ofNat 128 i))) =
        some (s', flows) ∧ s'.numPeers = 1 ∧ s'.numForced = 0 := by
  obtain ⟨s', hrun, h, habs⟩ := (Peers.inv_init (show 0 < 1 by decide)
    fun _ => Peers.freshPeer (.v4 0) ⟨0, 0⟩).processInputs
    (emptyDatagrams ((List.range (2 ^ 32 + 1)).map fun i => .v6 (BitVec.ofNat 128 i)))
  obtain ⟨-, hN, hF⟩ := Registry.inputs_fresh_of_lt (show 0 < 1 by decide)
    (by decide) (source_emptyDatagrams _)
    (by rw [filterMap_emptyDatagrams]; exact nodup_range_v6 (n := 2 ^ 32 + 1) (by decide))
  rw [← Peers.abs_init 1 fun _ => Peers.freshPeer (.v4 0) ⟨0, 0⟩, ← habs] at hN hF
  simp only [filterMap_emptyDatagrams, List.length_map, List.length_range] at hN hF
  exact ⟨s', _, hrun, by simpa using hN, by simpa using hF⟩

end Flowd
