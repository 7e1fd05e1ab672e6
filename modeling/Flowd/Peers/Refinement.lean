import Flowd.Peers.Invariant
import Flowd.Registry

/-!
# The splay tree and the LRU list refine the list of records

`Flowd.Peers.abs` reads a `struct peers` as a `Flowd.Registry`: the records of the LRU list,
in list order, read through the heap, and the three counters. On a registry that satisfies
`Flowd.Peers.Inv`, each housekeeping function of flowd.c does to `abs` what its counterpart in
`Flowd.Registry` does.

The concrete invariant splits along the same line: `Linked` (tree and list in step) is proved
here for the pointer structure, and the counting part is `Flowd.Registry.Inv` of `abs`, proved
once on lists. `Inv.newPeer` puts the two back together.

## Main results

* `Flowd.Peers.Inv.abs_findPeer`, `Inv.abs_updatePeer`, `Inv.abs_bumpInvalid`, `abs_dumpPeers` —
  one refinement lemma per operation
* `Flowd.Peers.Inv.newPeer` — **`new_peer` of a new address** keeps the invariant and refines
  `Flowd.Registry.newPeer`; the `TAILQ_LAST` it evicts is never `NULL`
-/

namespace Flowd

namespace Peers

/-- The records of the LRU list, read through the heap, and the counters. -/
def abs (s : Peers) : Registry := ⟨s.peerList.map s.heap, s.maxPeers, s.numPeers, s.numForced⟩

variable {s : Peers}

@[simp] theorem abs_peers (s : Peers) : s.abs.peers = s.peerList.map s.heap := rfl
@[simp] theorem abs_counters (s : Peers) :
    s.abs.maxPeers = s.maxPeers ∧ s.abs.numPeers = s.numPeers ∧ s.abs.numForced = s.numForced :=
  ⟨rfl, rfl, rfl⟩

theorem registered_abs (a : Xaddr) : s.abs.Registered a ↔ s.Registered a := by
  simp [Registry.Registered, Registered, key]

/-! ### The invariant, split -/

theorem Inv.abs (h : Inv s) : s.abs.Inv where
  nodup := by
    rw [abs_peers, List.map_map]
    exact h.nodup.map_on fun p hp q hq e => h.key_inj hp hq e
  numPeers_eq := by simpa using h.numPeers_eq
  bounded := by simpa using h.bounded
  maxPeers_pos := h.maxPeers_pos

theorem Linked.inv (h : Linked s) (ha : s.abs.Inv) : Inv s :=
  ⟨h.sorted, h.perm, by simpa using ha.numPeers_eq, by simpa using ha.bounded, ha.maxPeers_pos⟩

/-! ### One lemma per operation -/

/-- `find_peer` only splays the tree. -/
@[simp] theorem abs_findPeer (s : Peers) (a : Xaddr) : (s.findPeer a).1.abs = s.abs := rfl

/-- `find_peer` finds the record `Registry.find` finds. -/
theorem Inv.find_abs (h : Inv s) {p : Ptr} (hp : p ∈ s.peerList) :
    s.abs.find (s.key p) = some (s.heap p) :=
  (Registry.find_eq_some_iff h.abs).2 ⟨List.mem_map_of_mem _ hp, rfl⟩

theorem Inv.abs_bumpInvalid (h : Inv s) {p : Ptr} (hp : p ∈ s.peerList) :
    (s.bumpInvalid p).abs = s.abs.bumpInvalid (s.key p) := by
  simp only [Peers.abs, Registry.bumpInvalid, List.map_map, peerList_bumpInvalid,
    counters_bumpInvalid, heap_bumpInvalid, Registry.mk.injEq, and_true]
  refine List.map_congr_left fun q hq => ?_
  by_cases hqp : q = p
  · subst hqp; simp [key]
  · have : (s.heap q).from ≠ s.key p := fun e => hqp (h.key_inj hq hp e)
    simp [hqp, this]

/-- `update_peer`'s test for the head of the list does not change the outcome: the node always
ends up first, followed by the others in their order. -/
theorem peerList_updatePeer_eq (s : Peers) (p : Ptr) (n v : ℕ) (now : Timeval) :
    (s.updatePeer p n v now).peerList = p :: s.peerList.erase p := by
  rw [peerList_updatePeer]
  split_ifs with hh
  · obtain ⟨t, ht⟩ := List.head?_eq_some_iff.1 hh
    simp [ht]
  · rfl

theorem Inv.abs_updatePeer (h : Inv s) {p : Ptr} (hp : p ∈ s.peerList) (n v : ℕ)
    (now : Timeval) : (s.updatePeer p n v now).abs = s.abs.updatePeer (s.key p) n v now := by
  have hfilter : (s.peerList.map s.heap).filter (·.from ≠ s.key p) =
      (s.peerList.erase p).map s.heap := by
    rw [List.filter_map, h.nodup.erase_eq_filter]
    exact congrArg _ (List.filter_congr fun q hq => by
      by_cases hqp : q = p
      · simp [hqp, key]
      · have : (s.heap q).from ≠ (s.heap p).from := fun e => hqp (h.key_inj hq hp e)
        simp [hqp, this, key])
  have hnot : p ∉ s.peerList.erase p := h.nodup.not_mem_erase
  rw [Registry.updatePeer, h.find_abs hp]
  simp only [Peers.abs, peerList_updatePeer_eq, counters_updatePeer, heap_updatePeer, hfilter,
    List.map_cons, Function.update_same, Registry.mk.injEq, and_true, List.cons.injEq, true_and]
  exact List.map_congr_left fun q hq => by simp [show q ≠ p from fun e => hnot (e ▸ hq)]

/-- `dump_peers` only splays the tree. -/
@[simp] theorem abs_dumpPeers (s : Peers) : s.dumpPeers.1.abs = s.abs := rfl

/-! ### `new_peer` -/

/-- The tail of a list without repetitions is erased by erasing its value. -/
theorem erase_getLast {l : List Ptr} {v : Ptr} (hl : l.Nodup) (hv : l.getLast? = some v) :
    l.erase v = l.dropLast := by
  obtain ⟨ys, rfl⟩ := List.getLast?_eq_some_iff.1 hv
  have : v ∉ ys := fun hm => (List.nodup_append.1 hl).2.2 hm (List.mem_singleton_self v)
  simp [List.erase_append_right _ this]

/-- When the count overflows `max_peers`, the first half of `new_peer` deletes the tail of the
list from both structures and does on the list what `Registry.makeRoom` does. -/
theorem Inv.makeRoom_evict (h : Inv s) (hev : s.maxPeers < uintInc s.numPeers) :
    ∃ v, s.peerList.getLast? = some v ∧ ∃ s₁, s.makeRoom = some s₁ ∧ Linked s₁ ∧
      s₁.peerList = s.peerList.erase v ∧ s₁.heap = s.heap ∧ s₁.abs = s.abs.makeRoom := by
  obtain ⟨v, hv⟩ := h.getLast?_of_lt hev
  obtain ⟨hl, hlist⟩ := Linked.deletePeer
    (s := { s with numPeers := uintInc s.numPeers, numForced := uintInc s.numForced })
    ⟨h.sorted, h.perm⟩ (List.mem_of_getLast?_eq_some hv)
  refine ⟨v, hv, _, by simp [Peers.makeRoom, hev, hv], hl, hlist, rfl, ?_⟩
  simp only [Peers.abs, Registry.makeRoom, hev, if_true, hlist, erase_getLast h.nodup hv,
    List.map_dropLast]
  rfl

/-- The first half of `new_peer` keeps the tree and the list in step and does on the list what
`Registry.makeRoom` does. -/
theorem Inv.makeRoom (h : Inv s) :
    ∃ s₁, s.makeRoom = some s₁ ∧ Linked s₁ ∧ s₁.heap = s.heap ∧ s₁.abs = s.abs.makeRoom := by
  by_cases hev : s.maxPeers < uintInc s.numPeers
  · obtain ⟨-, -, s₁, h₁, hl, -, hh, ha⟩ := h.makeRoom_evict hev
    exact ⟨s₁, h₁, hl, hh, ha⟩
  · refine ⟨{ s with numPeers := uintInc s.numPeers }, by simp [Peers.makeRoom, hev],
      ⟨h.sorted, h.perm⟩, rfl, ?_⟩
    simp only [Peers.abs, Registry.makeRoom, hev, if_false]

theorem abs_linkPeer {a : Xaddr} {q : Ptr} (hq : q ∉ s.peerList) (now : Timeval) :
    (s.linkPeer a q now).abs = { s.abs with peers := freshPeer a now :: s.abs.peers } := by
  simp only [Peers.abs, linkPeer_peerList, linkPeer_heap, List.map_cons, Function.update_same,
    linkPeer_maxPeers, linkPeer_numPeers, linkPeer_numForced]
  congr 2
  exact List.map_congr_left fun p hp => by simp [show p ≠ q from fun e => hq (e ▸ hp)]

/-- **`new_peer` of a new address** keeps the invariant, does on the list what
`Registry.newPeer` does, and returns the node it linked in for the address. -/
theorem Inv.newPeer (h : Inv s) {a : Xaddr} (ha : ¬ s.Registered a) (calloc : Calloc)
    (now : Timeval) : ∃ s' q, s.newPeer a calloc now = some (s', q) ∧ Inv s' ∧
      s'.abs = s.abs.newPeer a now ∧ q ∈ s'.peerList ∧ s'.key q = a := by
  obtain ⟨s₁, hs₁, hl, hheap, habs⟩ := h.makeRoom
  have hq := calloc.fresh s₁.peerList
  have ha₁ : ∀ p ∈ s₁.peerList, s₁.key p ≠ a := fun p hp hk =>
    ha ((registered_abs a).1 (Registry.registered_of_makeRoom
      (habs ▸ (registered_abs a).2 ⟨p, hp, hk⟩)))
  have habs' : (s₁.linkPeer a (calloc.next s₁.peerList) now).abs = s.abs.newPeer a now := by
    rw [abs_linkPeer hq, habs]; rfl
  refine ⟨_, _, by simp [Peers.newPeer, hs₁], (hl.linkPeer hq ha₁ now).inv ?_, habs',
    List.mem_cons_self _ _, by simp [key]⟩
  rw [habs']
  exact h.abs.newPeer ((registered_abs a).not.2 ha) now

end Peers

end Flowd
