import Mathlib.Order.Basic
import Mathlib.Data.BitVec

/-!
# Exporter addresses

`struct xaddr` and `addr_cmp`, the key of the peer registry. `addr.h` and `addr.c` are not in
the repository; what flowd.c relies on is that an address is a tagged IPv4 or IPv6 value
(`addr_sa_to_xaddr` rejects every other family, so no other value reaches the registry) and
that `addr_cmp` is a total order on them, "family first, then lexicographic bytes" in the
words of the spec.

## Design notes

A `v4` address keeps its four bytes as the number they spell in network order, and a `v6`
address its sixteen bytes likewise; lexicographic order on the bytes is then the order on
those numbers. `Xaddr.rank` places both families on one number line, IPv4 first, and
`addrCmp` is `compare` on ranks. That gives `Xaddr` a `LinearOrder` whose `compare` *is*
`addrCmp`, definitionally, so the splay tree's results, stated for any linear order, apply to
`peer_compare` with no translation.

## Main results

* `Flowd.addrCmp_eq_compare_rank` — `addr_cmp` is the comparison of ranks
* `Flowd.Xaddr.rank_injective` — so it is a total order in which equal means identical
-/

namespace Flowd

/-- Address family of an `xaddr`: `AF_INET` or `AF_INET6`. -/
inductive Family where
  | inet
  | inet6
  deriving DecidableEq, Repr

/-- Modelled from the spec: `struct xaddr`, a tagged IPv4 or IPv6 host address. The address
bytes are kept as the number they spell in network byte order. -/
inductive Xaddr where
  | v4 (addr : BitVec 32)
  | v6 (addr : BitVec 128)
  deriving DecidableEq, Repr

namespace Xaddr

/-- The `af` member. -/
def af : Xaddr → Family
  | v4 _ => .inet
  | v6 _ => .inet6

@[simp] theorem af_v4 (a : BitVec 32) : (v4 a).af = .inet := rfl
@[simp] theorem af_v6 (a : BitVec 128) : (v6 a).af = .inet6 := rfl

/-- Position of an address on one number line: IPv4 addresses first, then IPv6. -/
def rank : Xaddr → ℕ
  | v4 a => a.toNat
  | v6 a => 2 ^ 32 + a.toNat

theorem rank_injective : Function.Injective rank := by
  rintro (a | a) (b | b) h <;> simp only [rank] at h
  · exact congrArg v4 (BitVec.eq_of_toNat_eq h)
  · have := a.isLt; omega
  · have := b.isLt; omega
  · exact congrArg v6 (BitVec.eq_of_toNat_eq (by omega))

end Xaddr

/-- Modelled from the spec: `addr_cmp`, "family first, then lexicographic bytes". -/
def addrCmp : Xaddr → Xaddr → Ordering
  | .v4 a, .v4 b => compare a.toNat b.toNat
  | .v4 _, .v6 _ => .lt
  | .v6 _, .v4 _ => .gt
  | .v6 a, .v6 b => compare a.toNat b.toNat

theorem addrCmp_eq_compare_rank (a b : Xaddr) : addrCmp a b = compare a.rank b.rank := by
  rcases a with a | a <;> rcases b with b | b <;> simp only [addrCmp, Xaddr.rank]
  · have := a.isLt
    exact (compare_lt_iff_lt.2 (by omega)).symm
  · have := b.isLt
    exact (compare_gt_iff_gt.2 (by omega)).symm
  · rcases lt_trichotomy a.toNat b.toNat with h | h | h
    · rw [compare_lt_iff_lt.2 h, compare_lt_iff_lt.2 (by omega)]
    · rw [h, compare_eq_iff_eq.2 rfl, compare_eq_iff_eq.2 rfl]
    · rw [compare_gt_iff_gt.2 h, compare_gt_iff_gt.2 (by omega)]

instance : Ord Xaddr := ⟨addrCmp⟩

/-- Addresses ordered by `addr_cmp`. -/
instance : LinearOrder Xaddr :=
  LinearOrder.liftWithOrd' Xaddr.rank Xaddr.rank_injective addrCmp_eq_compare_rank

@[simp] theorem compare_eq_addrCmp (a b : Xaddr) : compare a b = addrCmp a b := rfl

theorem addrCmp_eq_iff {a b : Xaddr} : addrCmp a b = .eq ↔ a = b :=
  show compare a b = .eq ↔ a = b from compare_eq_iff_eq

end Flowd
