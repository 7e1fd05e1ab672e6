import Mathlib.Data.List.Basic

/-!
# Splay trees: the splay step

The peer registry keeps its nodes in a splay tree generated by `SPLAY_GENERATE(peer_tree, ...)`
from `sys-tree.h`, a header the repository includes but does not contain. This module models
the one procedure every tree operation goes through, `SPLAY`, the top-down splay of
`sys-tree.h`; the operations built on it are in `Flowd.SplayTree.Ops`.

## The top-down splay as a function

The C loop keeps three trees: the current root, and a *left* and a *right* tree assembled
under a dummy header node. `SPLAY_LINKRIGHT` hangs the root on the left tree, keeping its left
child; `SPLAY_LINKLEFT` hangs it on the right tree, keeping its right child;
`SPLAY_ROTATE_RIGHT` and `SPLAY_ROTATE_LEFT` do the zig-zig rotation first. The loop stops
when the root matches or the next child on the search side is missing, and
`SPLAY_ASSEMBLE` then hangs the root's children at the open ends of the two side trees and the
side trees under the root.

`splayAux` keeps the two side trees as lists of linked nodes, newest first; `assemble` folds
them back into trees. The recursion descends into a child at every step; `splayLeft` and
`splayRight` pass the descent back to `splayAux`, so the three are defined by well-founded
recursion on the size of the tree, and proofs go through their equation lemmas.

## Main results

* `Flowd.SplayTree.toList_splay` — splaying does not change the in-order sequence
* `Flowd.SplayTree.rootSplit_splay` — what the root is afterwards, for a search function
  that is monotone along the in-order sequence (`Searches`)
-/

namespace Flowd

/-- A splay tree: `SPLAY_ENTRY` gives each node a left and a right child. -/
inductive SplayTree (α : Type) where
  | nil
  | node (left : SplayTree α) (elm : α) (right : SplayTree α)
  deriving Repr, DecidableEq

namespace SplayTree

variable {α : Type}

/-- The nodes in order: left subtree, node, right subtree. -/
def toList : SplayTree α → List α
  | nil => []
  | node l x r => l.toList ++ x :: r.toList

@[simp] theorem toList_nil : (nil : SplayTree α).toList = [] := rfl

@[simp] theorem toList_node (l : SplayTree α) (x : α) (r : SplayTree α) :
    (node l x r).toList = l.toList ++ x :: r.toList := rfl

theorem eq_nil_of_toList_eq_nil : {t : SplayTree α} → t.toList = [] → t = nil
  | nil, _ => rfl
  | node _ _ _, h => by simp at h

/-- Number of nodes. -/
def count : SplayTree α → ℕ
  | nil => 0
  | node l _ r => l.count + r.count + 1

@[simp] theorem count_nil : (nil : SplayTree α).count = 0 := rfl

@[simp] theorem count_node (l : SplayTree α) (x : α) (r : SplayTree α) :
    (node l x r).count = l.count + r.count + 1 := rfl

theorem count_eq_length (t : SplayTree α) : t.count = t.toList.length := by
  induction t with
  | nil => rfl
  | node l x r ihl ihr => simp [ihl, ihr]; omega

/-- `SPLAY_EMPTY`, or a child pointer being `NULL`. -/
def isNil : SplayTree α → Bool
  | nil => true
  | node .. => false

@[simp] theorem isNil_nil : (nil : SplayTree α).isNil = true := rfl
@[simp] theorem isNil_node (l : SplayTree α) (x : α) (r : SplayTree α) :
    (node l x r).isNil = false := rfl

theorem isNil_eq_false {t : SplayTree α} : t.isNil = false ↔ t ≠ nil := by
  cases t <;> simp

/-! ### Side trees -/

/-- In-order sequence of the left tree, nodes newest first, without its open right end. -/
def spineL : List (SplayTree α × α) → List α
  | [] => []
  | (a, y) :: ls => spineL ls ++ a.toList ++ [y]

/-- In-order sequence of the right tree, nodes newest first, without its open left end. -/
def spineR : List (α × SplayTree α) → List α
  | [] => []
  | (y, b) :: rs => y :: b.toList ++ spineR rs

@[simp] theorem spineL_nil : spineL ([] : List (SplayTree α × α)) = [] := rfl
@[simp] theorem spineL_cons (a : SplayTree α) (y : α) (ls : List (SplayTree α × α)) :
    spineL ((a, y) :: ls) = spineL ls ++ a.toList ++ [y] := rfl
@[simp] theorem spineR_nil : spineR ([] : List (α × SplayTree α)) = [] := rfl
@[simp] theorem spineR_cons (y : α) (b : SplayTree α) (rs : List (α × SplayTree α)) :
    spineR ((y, b) :: rs) = y :: b.toList ++ spineR rs := rfl

/-- `SPLAY_ASSEMBLE`: the root's children close the two side trees, which become the root's
children. -/
def assemble (ls : List (SplayTree α × α)) (l : SplayTree α) (x : α) (r : SplayTree α)
    (rs : List (α × SplayTree α)) : SplayTree α :=
  node (ls.foldl (fun t p => node p.1 p.2 t) l) x (rs.foldl (fun t p => node t p.1 p.2) r)

theorem toList_foldl_left (ls : List (SplayTree α × α)) (l : SplayTree α) :
    (ls.foldl (fun t p => node p.1 p.2 t) l).toList = spineL ls ++ l.toList := by
  induction ls generalizing l with
  | nil => rfl
  | cons p ls ih => obtain ⟨a, y⟩ := p; simp [ih]

theorem toList_foldl_right (rs : List (α × SplayTree α)) (r : SplayTree α) :
    (rs.foldl (fun t p => node t p.1 p.2) r).toList = r.toList ++ spineR rs := by
  induction rs generalizing r with
  | nil => simp
  | cons p rs ih => obtain ⟨y, b⟩ := p; simp [ih]

@[simp] theorem toList_assemble (ls : List (SplayTree α × α)) (l : SplayTree α) (x : α)
    (r : SplayTree α) (rs : List (α × SplayTree α)) :
    (assemble ls l x r rs).toList = spineL ls ++ l.toList ++ x :: (r.toList ++ spineR rs) := by
  simp [assemble, toList_foldl_left, toList_foldl_right]

/-! ### The splay loop -/

mutual

/-- The loop of `SPLAY(head, elm)`, where `c x` is `cmp(elm, x)`: the current root, and the
nodes linked into the left and the right tree so far. -/
def splayAux (c : α → Ordering) :
    SplayTree α → List (SplayTree α × α) → List (α × SplayTree α) → SplayTree α
  | nil, _, _ => nil
  | node l x r, ls, rs =>
    match c x with
    | .eq => assemble ls l x r rs
    | .lt => splayLeft c l x r ls rs
    | .gt => splayRight c l x r ls rs
termination_by t => 2 * t.count
decreasing_by all_goals simp only [count]; omega

/-- The `__comp < 0` branch of the loop, at a root `x` with children `l` and `r`. -/
def splayLeft (c : α → Ordering) : SplayTree α → α → SplayTree α →
    List (SplayTree α × α) → List (α × SplayTree α) → SplayTree α
  | nil, x, r, ls, rs => assemble ls nil x r rs
  | node ll y lr, x, r, ls, rs =>
    if c y = .lt then
      -- `SPLAY_ROTATE_RIGHT`: `y` becomes the root, then `SPLAY_LINKLEFT` unless it has no
      -- left child
      if ll.isNil then assemble ls ll y (node lr x r) rs
      else splayAux c ll ls ((y, node lr x r) :: rs)
    else splayAux c (node ll y lr) ls ((x, r) :: rs)
termination_by l => 2 * l.count + 1
decreasing_by all_goals simp only [count]; omega

/-- The `__comp > 0` branch of the loop, the mirror image of `splayLeft`. -/
def splayRight (c : α → Ordering) : SplayTree α → α → SplayTree α →
    List (SplayTree α × α) → List (α × SplayTree α) → SplayTree α
  | l, x, nil, ls, rs => assemble ls l x nil rs
  | l, x, node rl y rr, ls, rs =>
    if c y = .gt then
      if rr.isNil then assemble ls (node l x rl) y rr rs
      else splayAux c rr ((node l x rl, y) :: ls) rs
    else splayAux c (node rl y rr) ((l, x) :: ls) rs
termination_by _ _ r => 2 * r.count + 1
decreasing_by all_goals simp only [count]; omega

end

/-- `SPLAY(head, elm)` with `c x = cmp(elm, x)`. The C code never splays an empty tree. -/
def splay (c : α → Ordering) (t : SplayTree α) : SplayTree α := splayAux c t [] []

@[simp] theorem splay_nil (c : α → Ordering) : splay c nil = nil := by
  simp [splay, splayAux]

theorem splayAux_node (c : α → Ordering) (l : SplayTree α) (x : α) (r : SplayTree α)
    (ls : List (SplayTree α × α)) (rs : List (α × SplayTree α)) :
    splayAux c (node l x r) ls rs = match c x with
      | .eq => assemble ls l x r rs
      | .lt => splayLeft c l x r ls rs
      | .gt => splayRight c l x r ls rs := by
  rw [splayAux]

variable (c : α → Ordering)

mutual

theorem toList_splayAux : (t : SplayTree α) → (ls : List (SplayTree α × α)) →
    (rs : List (α × SplayTree α)) → t ≠ nil →
    (splayAux c t ls rs).toList = spineL ls ++ t.toList ++ spineR rs
  | nil, _, _, h => absurd rfl h
  | node l x r, ls, rs, _ => by
    rw [splayAux_node]
    split
    · simp
    · exact toList_splayLeft l x r ls rs
    · exact toList_splayRight l x r ls rs
termination_by t => 2 * t.count
decreasing_by all_goals simp only [count]; omega

theorem toList_splayLeft : (l : SplayTree α) → (x : α) → (r : SplayTree α) →
    (ls : List (SplayTree α × α)) → (rs : List (α × SplayTree α)) →
    (splayLeft c l x r ls rs).toList = spineL ls ++ (node l x r).toList ++ spineR rs
  | nil, x, r, ls, rs => by simp [splayLeft]
  | node ll y lr, x, r, ls, rs => by
    rw [splayLeft]
    split_ifs with hy hll
    · cases ll <;> simp_all
    · rw [toList_splayAux ll _ _ (isNil_eq_false.1 (by simpa using hll))]
      simp
    · rw [toList_splayAux _ _ _ (by simp)]
      simp
termination_by l => 2 * l.count + 1
decreasing_by all_goals simp only [count]; omega

theorem toList_splayRight : (l : SplayTree α) → (x : α) → (r : SplayTree α) →
    (ls : List (SplayTree α × α)) → (rs : List (α × SplayTree α)) →
    (splayRight c l x r ls rs).toList = spineL ls ++ (node l x r).toList ++ spineR rs
  | l, x, nil, ls, rs => by simp [splayRight]
  | l, x, node rl y rr, ls, rs => by
    rw [splayRight]
    split_ifs with hy hrr
    · cases rr <;> simp_all
    · rw [toList_splayAux rr _ _ (isNil_eq_false.1 (by simpa using hrr))]
      simp
    · rw [toList_splayAux _ _ _ (by simp)]
      simp
termination_by _ _ r => 2 * r.count + 1
decreasing_by all_goals simp only [count]; omega

end

/-- **Splaying keeps the in-order sequence.** -/
@[simp] theorem toList_splay (t : SplayTree α) : (splay c t).toList = t.toList := by
  cases t with
  | nil => simp
  | node l x r => simpa using toList_splayAux c (node l x r) [] [] (by simp)

theorem splay_eq_nil_iff {t : SplayTree α} : splay c t = nil ↔ t = nil := by
  constructor
  · intro h
    apply eq_nil_of_toList_eq_nil
    rw [← toList_splay c t, h, toList_nil]
  · rintro rfl
    exact splay_nil c

/-! ### Where the splay leaves the sought element

`c x` is `cmp(elm, x)`: `.lt` when `elm` lies left of `x`, `.gt` when it lies right. On a search
tree that answer is monotone along the in-order sequence, which is all the loop relies on. -/

/-- `c` is monotone along `xs`: once it answers `.lt` it keeps answering `.lt`, and before an
answer `.gt` every answer was `.gt`. -/
def Searches (xs : List α) : Prop :=
  xs.Pairwise fun a b => (c a = .lt → c b = .lt) ∧ (c b = .gt → c a = .gt)

variable {c}

theorem Searches.sublist {xs ys : List α} (h : Searches c ys) (hs : xs.Sublist ys) :
    Searches c xs :=
  List.Pairwise.sublist hs h

theorem Searches.lt_right {A B : List α} {y : α} (h : Searches c (A ++ y :: B))
    (hy : c y = .lt) : ∀ z ∈ B, c z = .lt := fun z hz =>
  ((List.pairwise_cons.1 (List.pairwise_append.1 h).2.1).1 z hz).1 hy

theorem Searches.gt_left {A B : List α} {y : α} (h : Searches c (A ++ y :: B))
    (hy : c y = .gt) : ∀ z ∈ A, c z = .gt := fun z hz =>
  ((List.pairwise_append.1 h).2.2 z hz y (List.mem_cons_self y B)).2 hy

variable (c)

/-- What the root is after `SPLAY`: a node the search matches, or else a neighbour of the
sought position with nothing on the sought side. -/
def RootSplit : SplayTree α → Prop
  | nil => False
  | node l x r => c x = .eq ∨ (c x = .lt ∧ ∀ z ∈ l.toList, c z = .gt) ∨
      (c x = .gt ∧ ∀ z ∈ r.toList, c z = .lt)

theorem rootSplit_assemble {ls : List (SplayTree α × α)} {l : SplayTree α} {x : α}
    {r : SplayTree α} {rs : List (α × SplayTree α)} :
    RootSplit c (assemble ls l x r rs) ↔ c x = .eq ∨
      (c x = .lt ∧ ∀ z ∈ spineL ls ++ l.toList, c z = .gt) ∨
      (c x = .gt ∧ ∀ z ∈ r.toList ++ spineR rs, c z = .lt) := by
  simp only [assemble, RootSplit, toList_foldl_left, toList_foldl_right]

mutual

theorem rootSplit_splayAux : (t : SplayTree α) → (ls : List (SplayTree α × α)) →
    (rs : List (α × SplayTree α)) → t ≠ nil → Searches c t.toList →
    (∀ z ∈ spineL ls, c z = .gt) → (∀ z ∈ spineR rs, c z = .lt) →
    RootSplit c (splayAux c t ls rs)
  | nil, _, _, h, _, _, _ => absurd rfl h
  | node l x r, ls, rs, _, hs, hls, hrs => by
    rw [splayAux_node]
    split
    · exact (rootSplit_assemble c).2 (.inl ‹_›)
    · exact rootSplit_splayLeft l x r ls rs ‹_› hs hls hrs
    · exact rootSplit_splayRight l x r ls rs ‹_› hs hls hrs
termination_by t => 2 * t.count
decreasing_by all_goals simp only [count]; omega

theorem rootSplit_splayLeft : (l : SplayTree α) → (x : α) → (r : SplayTree α) →
    (ls : List (SplayTree α × α)) → (rs : List (α × SplayTree α)) → c x = .lt →
    Searches c (node l x r).toList → (∀ z ∈ spineL ls, c z = .gt) →
    (∀ z ∈ spineR rs, c z = .lt) → RootSplit c (splayLeft c l x r ls rs)
  | nil, x, r, ls, rs, hx, _, hls, _ => by
    rw [splayLeft, rootSplit_assemble]
    exact .inr (.inl ⟨hx, by simpa using hls⟩)
  | node ll y lr, x, r, ls, rs, hx, hs, hls, hrs => by
    have hr : ∀ z ∈ r.toList, c z = .lt :=
      Searches.lt_right (A := (node ll y lr).toList) (by simpa using hs) hx
    have hsl : Searches c (node ll y lr).toList := hs.sublist (by simp)
    rw [splayLeft]
    split_ifs with hy hll
    · cases ll with
      | nil => exact (rootSplit_assemble c).2 (.inr (.inl ⟨hy, by simpa using hls⟩))
      | node => simp at hll
    · have hlr : ∀ z ∈ lr.toList, c z = .lt :=
        Searches.lt_right (A := ll.toList) (by simpa using hsl) hy
      refine rootSplit_splayAux ll _ _ (isNil_eq_false.1 (by simpa using hll))
        (hsl.sublist (by simp)) hls ?_
      simp only [spineR_cons, toList_node, List.mem_cons, List.mem_append]
      rintro z ((rfl | hz | rfl | hz) | hz)
      exacts [hy, hlr z hz, hx, hr z hz, hrs z hz]
    · refine rootSplit_splayAux _ _ _ (by simp) hsl hls ?_
      simp only [spineR_cons, List.mem_cons, List.mem_append]
      rintro z ((rfl | hz) | hz)
      exacts [hx, hr z hz, hrs z hz]
termination_by l => 2 * l.count + 1
decreasing_by all_goals simp only [count]; omega

theorem rootSplit_splayRight : (l : SplayTree α) → (x : α) → (r : SplayTree α) →
    (ls : List (SplayTree α × α)) → (rs : List (α × SplayTree α)) → c x = .gt →
    Searches c (node l x r).toList → (∀ z ∈ spineL ls, c z = .gt) →
    (∀ z ∈ spineR rs, c z = .lt) → RootSplit c (splayRight c l x r ls rs)
  | l, x, nil, ls, rs, hx, _, _, hrs => by
    rw [splayRight, rootSplit_assemble]
    exact .inr (.inr ⟨hx, by simpa using hrs⟩)
  | l, x, node rl y rr, ls, rs, hx, hs, hls, hrs => by
    have hl : ∀ z ∈ l.toList, c z = .gt := Searches.gt_left (by simpa using hs) hx
    have hsr : Searches c (node rl y rr).toList :=
      hs.sublist ((List.sublist_cons_self _ _).trans (List.sublist_append_right _ _))
    rw [splayRight]
    split_ifs with hy hrr
    · cases rr with
      | nil => exact (rootSplit_assemble c).2 (.inr (.inr ⟨hy, by simpa using hrs⟩))
      | node => simp at hrr
    · have hrl : ∀ z ∈ rl.toList, c z = .gt := Searches.gt_left (by simpa using hsr) hy
      refine rootSplit_splayAux rr _ _ (isNil_eq_false.1 (by simpa using hrr))
        (hsr.sublist (by simp)) ?_ hrs
      simp only [spineL_cons, toList_node, List.mem_cons, List.mem_append]
      rintro z ((hz | hz | rfl | hz) | rfl | hz)
      exacts [hls z hz, hl z hz, hx, hrl z hz, hy, absurd hz (List.not_mem_nil z)]
    · refine rootSplit_splayAux _ _ _ (by simp) hsr ?_ hrs
      simp only [spineL_cons, List.mem_append, List.mem_singleton]
      rintro z ((hz | hz) | rfl)
      exacts [hls z hz, hl z hz, hx]
termination_by _ _ r => 2 * r.count + 1
decreasing_by all_goals simp only [count]; omega

end

/-- **The root after a splay.** On a tree the search is monotone on, `SPLAY` leaves at the root
either a node the search matches, or one with nothing on the side of the sought position. -/
theorem rootSplit_splay {t : SplayTree α} (ht : t ≠ nil) (hs : Searches c t.toList) :
    RootSplit c (splay c t) :=
  rootSplit_splayAux c t [] [] ht hs (by simp) (by simp)

end SplayTree

end Flowd
