import Flowd.Peers.Basic

/-!
# The registry invariant

`Flowd.Peers.Inv` is what every operation of the registry keeps: the tree is a search tree on
the `from` addresses, it holds exactly the nodes of the LRU list, and `num_peers` counts them
as a `u_int` counts. From it follow uniqueness of addresses, the correctness of `find_peer`, and
that `dump_peers` enumerates the registry in address order.

## The count

`new_peer` increments `num_peers` before comparing it with `max_peers`. While
`max_peers < UINT_MAX` the count never wraps, and the list never grows past `max_peers`. With
`max_peers = UINT_MAX` the comparison can never succeed: no peer is ever evicted, and the count
wraps at `2 ^ 32` peers. `Inv.bounded` records both regimes, and `numPeers_eq` the count modulo
`2 ^ 32` that holds in both.

## Main results

* `Flowd.Peers.findPeer_eq_some_iff`, `findPeer_eq_none_iff` — `find_peer` on a valid registry
* `Flowd.Peers.Linked.linkPeer`, `Linked.deletePeer` — the two halves of `new_peer` keep the tree
  and the list in step; `Inv.getLast?_of_lt` — there is a tail to evict whenever one must be
* `Flowd.Peers.dumpPeers_spec` — `dump_peers` logs each peer once, in increasing address order
-/

namespace Flowd

namespace Peers

/-- The registry invariant. -/
structure Inv (s : Peers) : Prop where
  /-- `peer_tree` is a search tree for `peer_compare`. -/
  sorted : SplayTree.Sorted s.key s.peerTree
  /-- The tree and the list hold the same nodes. -/
  perm : s.peerTree.toList.Perm s.peerList
  /-- `num_peers` counts the nodes, as a `u_int`. -/
  numPeers_eq : s.numPeers = s.peerList.length % 2 ^ 32
  /-- The list stays within `max_peers`, unless no count can exceed `max_peers`. -/
  bounded : s.peerList.length ≤ s.maxPeers ∨ 2 ^ 32 - 1 ≤ s.maxPeers
  /-- The configured bound is at least one. -/
  maxPeers_pos : 0 < s.maxPeers

/-- An address is registered when some node of the list has it. -/
def Registered (s : Peers) (a : Xaddr) : Prop := ∃ p ∈ s.peerList, s.key p = a

theorem inv_init {maxPeers : ℕ} (h : 0 < maxPeers) (heap : Ptr → PeerState) :
    Inv (init maxPeers heap) :=
  ⟨List.Pairwise.nil, List.Perm.refl _, rfl, .inl (Nat.zero_le _), h⟩

variable {s : Peers}

theorem Inv.mem_tree (h : Inv s) {p : Ptr} : p ∈ s.peerTree.toList ↔ p ∈ s.peerList :=
  h.perm.mem_iff

theorem Inv.nodup (h : Inv s) : s.peerList.Nodup :=
  h.perm.nodup_iff.1 h.sorted.nodup

/-- **No two nodes have the same address.** -/
theorem Inv.key_inj (h : Inv s) {p q : Ptr} (hp : p ∈ s.peerList) (hq : q ∈ s.peerList)
    (hk : s.key p = s.key q) : p = q :=
  SplayTree.eq_of_key_eq h.sorted (h.mem_tree.2 hp) (h.mem_tree.2 hq) hk

/-- The tree's sortedness depends only on the keys of the nodes in it. -/
theorem sorted_congr {k k' : Ptr → Xaddr} {t : SplayTree Ptr}
    (hk : ∀ p ∈ t.toList, k p = k' p) (hs : SplayTree.Sorted k t) : SplayTree.Sorted k' t :=
  List.Pairwise.imp_of_mem (fun ha hb hab => by rwa [← hk _ ha, ← hk _ hb]) hs

/-! ### `find_peer` -/

@[simp] theorem findPeer_peerList (s : Peers) (a : Xaddr) :
    (s.findPeer a).1.peerList = s.peerList := rfl
@[simp] theorem findPeer_heap (s : Peers) (a : Xaddr) : (s.findPeer a).1.heap = s.heap := rfl
@[simp] theorem findPeer_key (s : Peers) (a : Xaddr) : (s.findPeer a).1.key = s.key := rfl
@[simp] theorem findPeer_maxPeers (s : Peers) (a : Xaddr) :
    (s.findPeer a).1.maxPeers = s.maxPeers := rfl
@[simp] theorem findPeer_numPeers (s : Peers) (a : Xaddr) :
    (s.findPeer a).1.numPeers = s.numPeers := rfl
@[simp] theorem findPeer_numForced (s : Peers) (a : Xaddr) :
    (s.findPeer a).1.numForced = s.numForced := rfl
@[simp] theorem toList_findPeer (s : Peers) (a : Xaddr) :
    (s.findPeer a).1.peerTree.toList = s.peerTree.toList := SplayTree.toList_find _ _

theorem Inv.findPeer (h : Inv s) (a : Xaddr) : Inv (s.findPeer a).1 :=
  ⟨by unfold SplayTree.Sorted; simpa using h.sorted, by simpa using h.perm, h.numPeers_eq,
    h.bounded, h.maxPeers_pos⟩

theorem Inv.searches (h : Inv s) (a : Xaddr) :
    SplayTree.Searches (fun p => addrCmp a (s.key p)) s.peerTree.toList :=
  SplayTree.searches_compare a h.sorted

/-- **`find_peer` answers `NULL` exactly for an unregistered address.** -/
theorem findPeer_eq_none_iff (h : Inv s) (a : Xaddr) :
    (s.findPeer a).2 = none ↔ ¬ s.Registered a := by
  rw [findPeer, SplayTree.find_eq_none_iff (h.searches a), Registered]
  simp only [ne_eq, addrCmp_eq_iff, h.mem_tree, not_exists, not_and]
  exact forall₂_congr fun p _ => ⟨fun h' hk => h' hk.symm, fun h' hk => h' hk.symm⟩

/-- **`find_peer` answers the node holding the address.** -/
theorem findPeer_eq_some_iff (h : Inv s) (a : Xaddr) (p : Ptr) :
    (s.findPeer a).2 = some p ↔ p ∈ s.peerList ∧ s.key p = a := by
  constructor
  · intro hp
    obtain ⟨hm, hc⟩ := SplayTree.find_eq_some hp
    exact ⟨h.mem_tree.1 hm, (addrCmp_eq_iff.1 hc).symm⟩
  · rintro ⟨hp, rfl⟩
    cases hf : (s.findPeer (s.key p)).2 with
    | none => exact absurd ⟨p, hp, rfl⟩ ((findPeer_eq_none_iff h _).1 hf)
    | some q =>
      obtain ⟨hm, hc⟩ := SplayTree.find_eq_some hf
      rw [h.key_inj hp (h.mem_tree.1 hm) (addrCmp_eq_iff.1 hc)]

/-! ### `update_peer` and `ninvalid++` -/

theorem peerList_updatePeer_perm (s : Peers) {p : Ptr} (hp : p ∈ s.peerList) (n v : ℕ)
    (now : Timeval) : (s.updatePeer p n v now).peerList.Perm s.peerList := by
  unfold updatePeer
  split_ifs
  · exact List.Perm.refl _
  · exact (List.perm_cons_erase hp).symm

@[simp] theorem peerTree_updatePeer (s : Peers) (p : Ptr) (n v : ℕ) (now : Timeval) :
    (s.updatePeer p n v now).peerTree = s.peerTree := by
  unfold updatePeer; split_ifs <;> rfl

@[simp] theorem counters_updatePeer (s : Peers) (p : Ptr) (n v : ℕ) (now : Timeval) :
    (s.updatePeer p n v now).maxPeers = s.maxPeers ∧
      (s.updatePeer p n v now).numPeers = s.numPeers ∧
      (s.updatePeer p n v now).numForced = s.numForced := by
  unfold updatePeer; split_ifs <;> exact ⟨rfl, rfl, rfl⟩

theorem Inv.updatePeer (h : Inv s) {p : Ptr} (hp : p ∈ s.peerList) (n v : ℕ) (now : Timeval) :
    Inv (s.updatePeer p n v now) := by
  have hperm := peerList_updatePeer_perm s hp n v now
  refine ⟨by simpa using h.sorted, by simpa using h.perm.trans hperm.symm, ?_, ?_, ?_⟩
  · simpa [hperm.length_eq] using h.numPeers_eq
  · simpa [hperm.length_eq] using h.bounded
  · simpa using h.maxPeers_pos

theorem Inv.bumpInvalid (h : Inv s) (p : Ptr) : Inv (s.bumpInvalid p) :=
  ⟨by simpa using h.sorted, h.perm, h.numPeers_eq, h.bounded, h.maxPeers_pos⟩

/-! ### `new_peer` -/

/-- The part of the invariant that does not involve the counters. -/
structure Linked (s : Peers) : Prop where
  sorted : SplayTree.Sorted s.key s.peerTree
  perm : s.peerTree.toList.Perm s.peerList

theorem Linked.deletePeer {s : Peers} (h : Linked s) {p : Ptr} (hp : p ∈ s.peerList) :
    Linked (s.deletePeer p) ∧ (s.deletePeer p).peerList = s.peerList.erase p := by
  obtain ⟨hs, he, -⟩ := SplayTree.remove_spec h.sorted (h.perm.mem_iff.2 hp)
  exact ⟨⟨hs, he ▸ h.perm.erase p⟩, rfl⟩

theorem Linked.linkPeer {s : Peers} (h : Linked s) {a : Xaddr} {q : Ptr} (hq : q ∉ s.peerList)
    (ha : ∀ p ∈ s.peerList, s.key p ≠ a) (now : Timeval) : Linked (s.linkPeer a q now) := by
  have hkey : ∀ p ∈ s.peerTree.toList,
      s.key p = (Function.update s.heap q (freshPeer a now) p).from := fun p hp => by
    have : p ≠ q := fun e => hq (e ▸ h.perm.mem_iff.1 hp)
    simp [key, this]
  have hsorted := sorted_congr hkey h.sorted
  have hnew : ∀ z ∈ s.peerTree.toList, (Function.update s.heap q (freshPeer a now) z).from ≠
      (Function.update s.heap q (freshPeer a now) q).from := fun z hz => by
    rw [← hkey z hz]; simpa [freshPeer] using ha z (h.perm.mem_iff.1 hz)
  obtain ⟨hs, hp, -⟩ := SplayTree.insert_spec hsorted hnew
  exact ⟨hs, hp.trans (h.perm.cons q)⟩

@[simp] theorem linkPeer_peerList (s : Peers) (a : Xaddr) (q : Ptr) (now : Timeval) :
    (s.linkPeer a q now).peerList = q :: s.peerList := rfl
@[simp] theorem linkPeer_heap (s : Peers) (a : Xaddr) (q : Ptr) (now : Timeval) :
    (s.linkPeer a q now).heap = Function.update s.heap q (freshPeer a now) := rfl
@[simp] theorem linkPeer_maxPeers (s : Peers) (a : Xaddr) (q : Ptr) (now : Timeval) :
    (s.linkPeer a q now).maxPeers = s.maxPeers := rfl
@[simp] theorem linkPeer_numPeers (s : Peers) (a : Xaddr) (q : Ptr) (now : Timeval) :
    (s.linkPeer a q now).numPeers = s.numPeers := rfl
@[simp] theorem linkPeer_numForced (s : Peers) (a : Xaddr) (q : Ptr) (now : Timeval) :
    (s.linkPeer a q now).numForced = s.numForced := rfl

/-- When `new_peer` must evict, the list is not empty: `TAILQ_LAST` is never `NULL`. -/
theorem Inv.getLast?_of_lt (h : Inv s) (hev : s.maxPeers < uintInc s.numPeers) :
    ∃ v, s.peerList.getLast? = some v := by
  have := h.numPeers_eq
  have := h.maxPeers_pos
  cases hl : s.peerList.getLast? with
  | some v => exact ⟨v, rfl⟩
  | none =>
    rw [List.getLast?_eq_none_iff] at hl
    simp [hl, uintInc] at *
    omega

/-! ### `dump_peers` -/

@[simp] theorem dumpPeers_peerList (s : Peers) : s.dumpPeers.1.peerList = s.peerList := rfl
@[simp] theorem dumpPeers_heap (s : Peers) : s.dumpPeers.1.heap = s.heap := rfl

theorem dumpPeers_lines (h : Inv s) :
    s.dumpPeers.2.lines = s.peerTree.toList.enum.map fun (i, p) => (i, s.heap p) := by
  simp [dumpPeers, (SplayTree.foreach_spec h.sorted).1]

@[simp] theorem toList_dumpPeers (h : Inv s) :
    s.dumpPeers.1.peerTree.toList = s.peerTree.toList :=
  (SplayTree.foreach_spec h.sorted).2

theorem Inv.dumpPeers (h : Inv s) : Inv s.dumpPeers.1 :=
  ⟨by unfold SplayTree.Sorted; rw [toList_dumpPeers h]; exact h.sorted,
    by rw [toList_dumpPeers h]; exact h.perm, h.numPeers_eq, h.bounded, h.maxPeers_pos⟩

theorem map_snd_dumpPeers_lines (h : Inv s) :
    s.dumpPeers.2.lines.map Prod.snd = s.peerTree.toList.map s.heap := by
  rw [dumpPeers_lines h, List.map_map]
  conv_rhs => rw [← List.enum_map_snd s.peerTree.toList, List.map_map]
  rfl

/-- **`dump_peers` logs each registered peer once, in increasing address order,** numbering the
lines from zero. -/
theorem dumpPeers_spec (h : Inv s) :
    (s.dumpPeers.2.lines.map Prod.snd).Perm (s.peerList.map s.heap) ∧
      ((s.dumpPeers.2.lines.map Prod.snd).map PeerState.from).Pairwise (· < ·) ∧
      s.dumpPeers.2.lines.map Prod.fst = List.range s.peerList.length := by
  rw [map_snd_dumpPeers_lines h]
  refine ⟨h.perm.map s.heap, ?_, ?_⟩
  · simpa [List.pairwise_map, List.map_map] using h.sorted
  · rw [dumpPeers_lines h, List.map_map, ← h.perm.length_eq, ← List.enum_map_fst]
    rfl

end Peers

end Flowd
