import Flowd.Addr
import Flowd.SplayTree.Ops
import Mathlib.Data.String.Basic

/-!
# The peer registry

`struct peer_state`, `struct peers`, and the housekeeping functions of flowd.c that touch them:
`delete_peer`, `new_peer`, `update_peer`, `find_peer` and `dump_peers`.

## Memory

A `peer_state` is one `calloc`ed block linked into two structures at once, the splay tree
`peer_tree` and the tail queue `peer_list`. The model keeps the blocks in `heap`, a map from
pointers to contents, and the two structures as a `SplayTree Ptr` and a `List Ptr` (head
first). The tree compares nodes through `heap`, as `peer_compare` reads `a->from` at the time
of the call. `free` only makes a pointer unreachable: the model never reads a block that is
not linked in, so its contents do not matter, and `calloc` may hand out any pointer that is not
linked in (`Flowd.Calloc`).

## Machine arithmetic

`max_peers`, `num_peers` and `num_forced` are `u_int`s, and the code increments and decrements
them with wrap-around. The model keeps them as naturals and performs `++` and `--` modulo
`2 ^ 32` (`uintInc`, `uintDec`). The `u_int64_t` counters of a peer are `UInt64`s, so that
`npackets++`, `nflows += nflows` and `ninvalid++` wrap after `2 ^ 64` as they do in the code.

`logit` calls are not modelled, except what `dump_peers` writes, which is its whole effect.
-/

namespace Flowd

/-- `x++` on a `u_int`. -/
def uintInc (x : ℕ) : ℕ := (x + 1) % 2 ^ 32

/-- `x--` on a `u_int`. -/
def uintDec (x : ℕ) : ℕ := (x + (2 ^ 32 - 1)) % 2 ^ 32

/-- `struct timeval`, as `gettimeofday` fills it. -/
structure Timeval where
  sec : ℕ
  usec : ℕ
  deriving DecidableEq, Repr

/-- A pointer to a `peer_state` block. -/
abbrev Ptr := ℕ

/-- The environment's `calloc`. The blocks in use are exactly those linked into the registry,
so `calloc` may return any pointer that is not on the LRU list, the one `delete_peer` has just
freed included. Failure is fatal (`logerrx`) and ends the run; it is not modelled. -/
structure Calloc where
  next : List Ptr → Ptr
  fresh : ∀ l, next l ∉ l

/-- `struct peer_state`, without the two link fields, which `Peers` keeps. -/
structure PeerState where
  «from» : Xaddr
  npackets : UInt64
  nflows : UInt64
  ninvalid : UInt64
  firstseen : Timeval
  lastvalid : Timeval
  lastVersion : ℕ
  deriving DecidableEq, Repr

/-- The fields `update_peer` writes into a block: the time of the last valid datagram, one more
packet, `nflows` more flows, and the version. -/
def PeerState.touch (p : PeerState) (nflows netflowVersion : ℕ) (now : Timeval) : PeerState :=
  { p with lastvalid := now, nflows := p.nflows + UInt64.ofNat nflows, npackets := p.npackets + 1,
           lastVersion := netflowVersion }

/-- `x++` on a `u_int64_t`. -/
theorem uint64_toNat_add_one (x : UInt64) : (x + 1).toNat = (x.toNat + 1) % 2 ^ 64 := rfl

/-- `x += n` on a `u_int64_t`, with `n` of a narrower unsigned type. -/
theorem uint64_toNat_add_ofNat (x : UInt64) (n : ℕ) :
    (x + UInt64.ofNat n).toNat = (x.toNat + n) % 2 ^ 64 :=
  Nat.add_mod_mod x.toNat n (2 ^ 64)

/-- `x++` on a `u_int64_t` changes `x`, wrap-around included. -/
theorem uint64_add_one_ne (x : UInt64) : x + 1 ≠ x := fun h => by
  have h' := congrArg UInt64.toNat h
  rw [uint64_toNat_add_one] at h'
  have := x.toNat_lt
  omega

@[simp] theorem PeerState.from_touch (p : PeerState) (n v : ℕ) (now : Timeval) :
    (p.touch n v now).from = p.from := rfl

/-- `struct peers`, with the memory its node pointers point into. -/
structure Peers where
  peerTree : SplayTree Ptr
  peerList : List Ptr
  maxPeers : ℕ
  numPeers : ℕ
  numForced : ℕ
  heap : Ptr → PeerState

namespace Peers

/-- The registry `main` sets up: empty tree and list, `max_peers` from the configuration. -/
def init (maxPeers : ℕ) (heap : Ptr → PeerState) : Peers :=
  ⟨.nil, [], maxPeers, 0, 0, heap⟩

/-- The address `peer_compare` reads from a node. -/
def key (peers : Peers) (p : Ptr) : Xaddr := (peers.heap p).from

/-- `delete_peer`: unlink from the list and the tree, free, and count down. -/
def deletePeer (peers : Peers) (peer : Ptr) : Peers :=
  { peers with
    peerList := peers.peerList.erase peer
    peerTree := (SplayTree.remove peers.key peer peers.peerTree).1
    numPeers := uintDec peers.numPeers }

/-- The block `calloc` returns for a new peer, after `memcpy(&peer->from, addr, ...)` and
`gettimeofday(&peer->firstseen, NULL)`. -/
def freshPeer (addr : Xaddr) (now : Timeval) : PeerState :=
  ⟨addr, 0, 0, 0, now, ⟨0, 0⟩, 0⟩

/-- The second half of `new_peer`: the new block gets its address and first-seen time, and is
linked at the head of the list and into the tree. -/
def linkPeer (peers : Peers) (addr : Xaddr) (peer : Ptr) (now : Timeval) : Peers :=
  let peers := { peers with
    heap := Function.update peers.heap peer (freshPeer addr now)
    peerList := peer :: peers.peerList }
  { peers with peerTree := (SplayTree.insert peers.key peer peers.peerTree).1 }

/-- The first half of `new_peer`: count the new peer and, when the count overflows `max_peers`,
delete the tail of the LRU list. `none` is the case where `TAILQ_LAST` is `NULL`, which the
warning then dereferences. -/
def makeRoom (peers : Peers) : Option Peers :=
  let peers := { peers with numPeers := uintInc peers.numPeers }
  if peers.numPeers > peers.maxPeers then
    match peers.peerList.getLast? with
    | none => none
    | some victim => some (deletePeer { peers with numForced := uintInc peers.numForced } victim)
  else some peers

/-- `new_peer`, with `now` the clock. The block comes from `calloc` after the deletion, so it may
be the one just freed. -/
def newPeer (peers : Peers) (addr : Xaddr) (calloc : Calloc) (now : Timeval) :
    Option (Peers × Ptr) := do
  let peers ← peers.makeRoom
  let peer := calloc.next peers.peerList
  some (peers.linkPeer addr peer now, peer)

/-- `update_peer`: move to the head of the LRU list unless already there, and count one valid
datagram with `nflows` flows of version `netflowVersion`. -/
def updatePeer (peers : Peers) (peer : Ptr) (nflows netflowVersion : ℕ) (now : Timeval) :
    Peers :=
  let peers := if peers.peerList.head? = some peer then peers
    else { peers with peerList := peer :: peers.peerList.erase peer }
  { peers with
    heap := Function.update peers.heap peer ((peers.heap peer).touch nflows netflowVersion now) }

/-- `peer->ninvalid++`. -/
def bumpInvalid (peers : Peers) (peer : Ptr) : Peers :=
  { peers with
    heap := Function.update peers.heap peer
      { peers.heap peer with ninvalid := (peers.heap peer).ninvalid + 1 } }

/-- `find_peer`: `SPLAY_FIND` with a temporary node whose `from` is `addr`. The search splays
the tree. -/
def findPeer (peers : Peers) (addr : Xaddr) : Peers × Option Ptr :=
  let r := SplayTree.find (fun p => addrCmp addr (peers.key p)) peers.peerTree
  ({ peers with peerTree := r.1 }, r.2)

/-- What `dump_peers` logs: the header line's three counters and, for each peer the
`SPLAY_FOREACH` loop visits, its index `i` and the fields its three lines print. -/
structure PeerDump where
  numPeers : ℕ
  maxPeers : ℕ
  numForced : ℕ
  lines : List (ℕ × PeerState)
  deriving Repr

/-- `dump_peers`: the log it writes, and the registry with the tree the loop splayed. -/
def dumpPeers (peers : Peers) : Peers × PeerDump :=
  let r := SplayTree.foreach peers.key peers.peerTree
  ({ peers with peerTree := r.2 },
    ⟨peers.numPeers, peers.maxPeers, peers.numForced, r.1.enum.map fun (i, p) => (i, peers.heap p)⟩)

/-! ### Frame lemmas -/

@[simp] theorem from_freshPeer (addr : Xaddr) (now : Timeval) : (freshPeer addr now).from = addr :=
  rfl

@[simp] theorem heap_bumpInvalid (peers : Peers) (peer : Ptr) :
    (peers.bumpInvalid peer).heap = Function.update peers.heap peer
      { peers.heap peer with ninvalid := (peers.heap peer).ninvalid + 1 } := rfl

@[simp] theorem heap_updatePeer (peers : Peers) (peer : Ptr) (n v : ℕ) (now : Timeval) :
    (peers.updatePeer peer n v now).heap =
      Function.update peers.heap peer ((peers.heap peer).touch n v now) := by
  unfold updatePeer; split_ifs <;> rfl

theorem peerList_updatePeer (peers : Peers) (peer : Ptr) (n v : ℕ) (now : Timeval) :
    (peers.updatePeer peer n v now).peerList = if peers.peerList.head? = some peer then
      peers.peerList else peer :: peers.peerList.erase peer := by
  unfold updatePeer; split_ifs <;> rfl

/-- Neither `peer->ninvalid++` nor `update_peer` changes an address, so the order the tree is
kept in stays the same. -/
@[simp] theorem key_bumpInvalid (peers : Peers) (peer : Ptr) :
    (peers.bumpInvalid peer).key = peers.key := by
  funext q
  by_cases h : q = peer
  · subst h; simp [key]
  · simp [key, h]

@[simp] theorem key_updatePeer (peers : Peers) (peer : Ptr) (n v : ℕ) (now : Timeval) :
    (peers.updatePeer peer n v now).key = peers.key := by
  funext q
  by_cases h : q = peer
  · subst h; simp [key]
  · simp [key, h]

@[simp] theorem key_deletePeer (peers : Peers) (peer : Ptr) :
    (peers.deletePeer peer).key = peers.key := rfl

@[simp] theorem peerList_bumpInvalid (peers : Peers) (peer : Ptr) :
    (peers.bumpInvalid peer).peerList = peers.peerList := rfl
@[simp] theorem peerTree_bumpInvalid (peers : Peers) (peer : Ptr) :
    (peers.bumpInvalid peer).peerTree = peers.peerTree := rfl
@[simp] theorem counters_bumpInvalid (peers : Peers) (peer : Ptr) :
    (peers.bumpInvalid peer).maxPeers = peers.maxPeers ∧
      (peers.bumpInvalid peer).numPeers = peers.numPeers ∧
      (peers.bumpInvalid peer).numForced = peers.numForced := ⟨rfl, rfl, rfl⟩

end Peers

end Flowd
