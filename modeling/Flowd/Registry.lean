import Flowd.Peers.Basic

/-!
# The registry as an LRU list of records

What `struct peers` is for, without the splay tree and the pointers: a list of peer records,
most recently used first, and the three counters. Each housekeeping function of flowd.c has a
counterpart here that works on the list alone. `Flowd.Peers.abs` reads the records off the LRU
list through the heap, and `Flowd.Peers.Refinement` shows it commutes with every operation; the
properties of whole runs (`Flowd.History`) are proved at this level.

The counterparts keep the code's `u_int` arithmetic: `newPeer` evicts exactly when the
incremented count exceeds `max_peers`, as `new_peer` does, and the counters wrap. Where the code
would dereference a `NULL` tail, the counterpart evicts nothing; `Registry.Inv` shows that case
never arises.

## Main results

* `Flowd.Registry.Inv.newPeer`, `Inv.updatePeer`, `Inv.bumpInvalid` — the invariant: one record
  per address, `num_peers` is the number of records modulo `2 ^ 32`, and the bound `max_peers`
  holds unless `max_peers + 1` does not fit in a `u_int`
-/

namespace Flowd

/-- The registry's contents in LRU order, head first, with its counters. -/
structure Registry where
  peers : List PeerState
  maxPeers : ℕ
  numPeers : ℕ
  numForced : ℕ
  deriving DecidableEq, Repr

namespace Registry

/-- The registry `main` sets up. -/
def init (maxPeers : ℕ) : Registry := ⟨[], maxPeers, 0, 0⟩

/-- An address has a record. -/
def Registered (r : Registry) (a : Xaddr) : Prop := a ∈ r.peers.map PeerState.from

instance (r : Registry) (a : Xaddr) : Decidable (r.Registered a) :=
  inferInstanceAs (Decidable (a ∈ _))

/-- `find_peer`: the record for an address. -/
def find (r : Registry) (a : Xaddr) : Option PeerState := r.peers.find? (·.from = a)

/-- The first half of `new_peer`: count the new peer and, when the count overflows `max_peers`,
drop the tail of the LRU list. -/
def makeRoom (r : Registry) : Registry :=
  if r.maxPeers < uintInc r.numPeers then
    { r with peers := r.peers.dropLast, numPeers := uintDec (uintInc r.numPeers),
             numForced := uintInc r.numForced }
  else { r with numPeers := uintInc r.numPeers }

/-- `new_peer` on the list: make room, and put a fresh record at the head. -/
def newPeer (r : Registry) (a : Xaddr) (now : Timeval) : Registry :=
  { r.makeRoom with peers := Peers.freshPeer a now :: r.makeRoom.peers }

/-- `update_peer` on the list: the record moves to the head, updated. -/
def updatePeer (r : Registry) (a : Xaddr) (nflows netflowVersion : ℕ) (now : Timeval) :
    Registry :=
  match r.find a with
  | none => r
  | some p => { r with peers := p.touch nflows netflowVersion now :: r.peers.filter (·.from ≠ a) }

/-- `peer->ninvalid++` on the list. -/
def bumpInvalid (r : Registry) (a : Xaddr) : Registry :=
  { r with peers := r.peers.map fun p =>
      if p.from = a then { p with ninvalid := p.ninvalid + 1 } else p }

theorem from_of_find {r : Registry} {a : Xaddr} {p : PeerState} (h : r.find a = some p) :
    p.from = a := by
  simpa using List.find?_some h

theorem find_bumpInvalid (r : Registry) (a b : Xaddr) :
    (r.bumpInvalid b).find a =
      (r.find a).map fun p => if p.from = b then { p with ninvalid := p.ninvalid + 1 } else p := by
  simp only [find, bumpInvalid, List.find?_map]
  congr 2
  funext x
  by_cases hx : x.from = b <;> simp [hx]

theorem find_updatePeer (r : Registry) (a b : Xaddr) (n v : ℕ) (now : Timeval) :
    (r.updatePeer b n v now).find a =
      if b = a then (r.find b).map (·.touch n v now) else r.find a := by
  unfold updatePeer
  cases hb : r.find b with
  | none =>
    split_ifs with hab
    · simp [← hab, hb]
    · rfl
  | some p =>
    have hp : p.from = b := from_of_find hb
    by_cases hab : b = a
    · subst hab; simp [find, List.find?_cons, hp]
    · simp only [find, List.find?_cons, PeerState.from_touch, hp, hab, decide_False, if_false,
        Option.map_some', List.find?_filter]
      congr 1
      funext x
      by_cases hx : x.from = a <;> simp [hx, Ne.symm hab]

@[simp] theorem counters_updatePeer (r : Registry) (a : Xaddr) (n v : ℕ) (now : Timeval) :
    (r.updatePeer a n v now).maxPeers = r.maxPeers ∧
      (r.updatePeer a n v now).numPeers = r.numPeers ∧
      (r.updatePeer a n v now).numForced = r.numForced := by
  unfold updatePeer; split <;> exact ⟨rfl, rfl, rfl⟩

@[simp] theorem counters_bumpInvalid (r : Registry) (a : Xaddr) :
    (r.bumpInvalid a).maxPeers = r.maxPeers ∧ (r.bumpInvalid a).numPeers = r.numPeers ∧
      (r.bumpInvalid a).numForced = r.numForced := ⟨rfl, rfl, rfl⟩

@[simp] theorem length_bumpInvalid (r : Registry) (a : Xaddr) :
    (r.bumpInvalid a).peers.length = r.peers.length := List.length_map _ _

/-! ### The invariant -/

/-- One record per address; `num_peers` counts the records as a `u_int`; the bound holds unless
the count can wrap before it exceeds `max_peers`. -/
structure Inv (r : Registry) : Prop where
  nodup : (r.peers.map PeerState.from).Nodup
  numPeers_eq : r.numPeers = r.peers.length % 2 ^ 32
  bounded : r.peers.length ≤ r.maxPeers ∨ 2 ^ 32 - 1 ≤ r.maxPeers
  maxPeers_pos : 0 < r.maxPeers

variable {r : Registry}

theorem inv_init {maxPeers : ℕ} (h : 0 < maxPeers) : (init maxPeers).Inv :=
  ⟨List.nodup_nil, rfl, .inl (Nat.zero_le _), h⟩

theorem find_eq_some_iff (h : r.Inv) {a : Xaddr} {p : PeerState} :
    r.find a = some p ↔ p ∈ r.peers ∧ p.from = a := by
  refine ⟨fun hf => ⟨List.mem_of_find?_eq_some hf, by simpa using List.find?_some hf⟩, ?_⟩
  rintro ⟨hp, rfl⟩
  cases hf : r.find p.from with
  | none => simpa using List.find?_eq_none.1 hf p hp
  | some q =>
    have hq : q.from = p.from := by simpa using List.find?_some hf
    rw [List.inj_on_of_nodup_map h.nodup (List.mem_of_find?_eq_some hf) hp hq]

theorem find_eq_none_iff {a : Xaddr} : r.find a = none ↔ ¬ r.Registered a := by
  simp [find, Registered]

/-- The addresses after `update_peer`: the updated one moves to the head. -/
theorem map_from_updatePeer (h : r.Inv) {a : Xaddr} (ha : r.Registered a) (n v : ℕ)
    (now : Timeval) :
    (r.updatePeer a n v now).peers.map PeerState.from = a :: (r.peers.map PeerState.from).erase a
    := by
  obtain ⟨p, hp, rfl⟩ := List.mem_map.1 ha
  rw [updatePeer, (find_eq_some_iff h).2 ⟨hp, rfl⟩, h.nodup.erase_eq_filter, List.filter_map]
  simp only [List.map_cons, PeerState.from_touch, List.cons.injEq, true_and]
  exact congrArg _ (List.filter_congr fun x _ => by by_cases hx : x.from = p.from <;> simp [hx])

theorem registered_of_makeRoom {a : Xaddr} (h : r.makeRoom.Registered a) : r.Registered a := by
  unfold makeRoom at h
  split_ifs at h
  · exact ((List.dropLast_sublist _).map _).subset h
  · exact h

theorem Inv.newPeer (h : r.Inv) {a : Xaddr} (ha : ¬ r.Registered a) (now : Timeval) :
    (r.newPeer a now).Inv := by
  obtain ⟨hnd, hn, hb, hm⟩ := h
  have hnd' : (r.peers.dropLast.map PeerState.from).Nodup :=
    hnd.sublist ((List.dropLast_sublist _).map _)
  have ha' : a ∉ r.peers.dropLast.map PeerState.from := fun h' =>
    ha (((List.dropLast_sublist _).map _).subset h')
  unfold Registry.newPeer makeRoom
  split_ifs with hev
  · refine ⟨List.nodup_cons.2 ⟨ha', hnd'⟩, ?_, ?_, hm⟩ <;>
      simp only [List.length_cons, List.length_dropLast] <;>
      simp only [uintInc, uintDec] at * <;> omega
  · refine ⟨List.nodup_cons.2 ⟨ha, hnd⟩, ?_, ?_, hm⟩ <;>
      simp only [List.length_cons] <;> simp only [uintInc] at * <;> omega

theorem Inv.updatePeer (h : r.Inv) (a : Xaddr) (n v : ℕ) (now : Timeval) :
    (r.updatePeer a n v now).Inv := by
  by_cases ha : r.Registered a
  · have hperm : ((r.updatePeer a n v now).peers.map PeerState.from).Perm
        (r.peers.map PeerState.from) := by
      rw [map_from_updatePeer h ha]; exact (List.perm_cons_erase ha).symm
    have hlen := hperm.length_eq
    simp only [List.length_map] at hlen
    refine ⟨hperm.nodup_iff.2 h.nodup, ?_, ?_, ?_⟩ <;> simp only [counters_updatePeer, hlen]
    exacts [h.numPeers_eq, h.bounded, h.maxPeers_pos]
  · rwa [Registry.updatePeer, find_eq_none_iff.2 ha]

@[simp] theorem map_from_bumpInvalid (a : Xaddr) :
    (r.bumpInvalid a).peers.map PeerState.from = r.peers.map PeerState.from := by
  simp only [bumpInvalid, List.map_map]
  exact List.map_congr_left fun p _ => by by_cases hp : p.from = a <;> simp [hp]

theorem Inv.bumpInvalid (h : r.Inv) (a : Xaddr) : (r.bumpInvalid a).Inv :=
  ⟨by simpa using h.nodup, by simpa using h.numPeers_eq, by simpa using h.bounded,
    by simpa using h.maxPeers_pos⟩

end Registry

end Flowd
