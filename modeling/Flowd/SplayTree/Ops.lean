import Flowd.SplayTree.Basic
import Mathlib.Order.Basic
import Mathlib.Data.List.Perm.Basic
import Mathlib.Data.List.Pairwise
import Mathlib.Data.List.Nodup

/-!
# Splay trees: the operations flowd.c uses

`SPLAY_FIND`, `SPLAY_INSERT`, `SPLAY_REMOVE`, `SPLAY_MIN`, `SPLAY_NEXT` and `SPLAY_FOREACH`
from `sys-tree.h`, each built on `splay` as the header builds it on `SPLAY`. Nodes are compared
through a key in a linear order, as `peer_compare` compares peers through `addr_cmp` on their
`from` addresses.

Every operation except insertion and removal leaves the in-order sequence alone, and the two
that change it do so as a sorted insertion and an `erase`. That is the whole content of the
tree for the registry: `dump_peers` enumerates the in-order sequence, and `find_peer` answers
from it.

## Main results

* `Flowd.SplayTree.find_eq_none_iff`, `find_eq_some` — `SPLAY_FIND` on a search tree
* `Flowd.SplayTree.insert_spec` — `SPLAY_INSERT` of a new key is a sorted insertion
* `Flowd.SplayTree.remove_spec` — `SPLAY_REMOVE` of a node is `List.erase`
* `Flowd.SplayTree.foreach_spec` — `SPLAY_FOREACH` visits the in-order sequence, each node
  once, and ends by `SPLAY_NEXT` returning `NULL` rather than by running out of nodes
-/

namespace Flowd

namespace SplayTree

variable {α κ : Type} [LinearOrder κ] (key : α → κ)

/-- The nodes are in strictly increasing key order. -/
def Sorted (t : SplayTree α) : Prop := t.toList.Pairwise fun a b => key a < key b

variable {key}

theorem searches_compare (q : κ) {xs : List α} (h : xs.Pairwise fun a b => key a < key b) :
    Searches (fun x => compare q (key x)) xs :=
  h.imp fun hab => ⟨fun ha => compare_lt_iff_lt.2 (lt_trans (compare_lt_iff_lt.1 ha) hab),
    fun hb => compare_gt_iff_gt.2 (lt_trans hab (compare_gt_iff_gt.1 hb))⟩

theorem searches_const_lt (xs : List α) : Searches (fun _ => .lt) xs :=
  List.pairwise_of_forall fun _ _ => ⟨fun h => h, fun h => by simp at h⟩

/-- In a strictly sorted sequence, a key names at most one node. -/
theorem eq_of_key_eq {xs : List α} (h : xs.Pairwise fun a b => key a < key b) {a b : α}
    (ha : a ∈ xs) (hb : b ∈ xs) (hk : key a = key b) : a = b := by
  by_contra hne
  exact (h.imp ne_of_lt).forall (fun _ _ h => Ne.symm h) ha hb hne hk

/-- The root, `SPLAY_ROOT(head)`. -/
def root? : SplayTree α → Option α
  | nil => none
  | node _ x _ => some x

/-! ### A search tree after the splay -/

/-- After a splay on a tree the search is monotone on, a node matches iff the root does. -/
theorem exists_eq_iff_root {c : α → Ordering} {l r : SplayTree α} {x : α}
    (hr : RootSplit c (node l x r)) (hs : Searches c (node l x r).toList) :
    (∃ z ∈ (node l x r).toList, c z = .eq) ↔ c x = .eq := by
  refine ⟨?_, fun h => ⟨x, by simp, h⟩⟩
  rintro ⟨z, hz, hzc⟩
  rcases hr with h | ⟨hx, hl⟩ | ⟨hx, hr⟩
  · exact h
  · have := Searches.lt_right (A := l.toList) hs hx
    simp only [toList_node, List.mem_append, List.mem_cons] at hz
    rcases hz with hz | rfl | hz
    · simp [hl z hz] at hzc
    · exact hzc
    · simp [this z hz] at hzc
  · have := Searches.gt_left (B := r.toList) hs hx
    simp only [toList_node, List.mem_append, List.mem_cons] at hz
    rcases hz with hz | rfl | hz
    · simp [this z hz] at hzc
    · exact hzc
    · simp [hr z hz] at hzc

theorem root?_splay_of_mem {c : α → Ordering} {t : SplayTree α} (hs : Searches c t.toList)
    {z : α} (hz : z ∈ t.toList) (hzc : c z = .eq) :
    ∃ l x r, splay c t = node l x r ∧ c x = .eq := by
  have ht : t ≠ nil := by rintro rfl; simp at hz
  have hsp := rootSplit_splay c ht hs
  cases h : splay c t with
  | nil => exact absurd h ((splay_eq_nil_iff c).not.2 ht)
  | node l x r =>
    rw [h] at hsp
    refine ⟨l, x, r, rfl, (exists_eq_iff_root hsp ?_).1 ⟨z, ?_, hzc⟩⟩
    · rwa [← h, toList_splay]
    · rwa [← h, toList_splay]

/-! ### `SPLAY_FIND` -/

/-- `SPLAY_FIND`: splay on `c`, then answer the root if the search matches it. The tree is left
splayed. -/
def find (c : α → Ordering) (t : SplayTree α) : SplayTree α × Option α :=
  match splay c t with
  | nil => (nil, none)
  | node l x r => (node l x r, if c x = .eq then some x else none)

@[simp] theorem toList_find (c : α → Ordering) (t : SplayTree α) :
    (find c t).1.toList = t.toList := by
  rw [← toList_splay c t, find]
  split <;> simp_all

theorem find_eq_some {c : α → Ordering} {t : SplayTree α} {x : α} (h : (find c t).2 = some x) :
    x ∈ t.toList ∧ c x = .eq := by
  rw [find] at h
  split at h
  · simp at h
  · rename_i l y r hsp
    split_ifs at h with hy
    cases h
    exact ⟨by rw [← toList_splay c t, hsp]; simp, hy⟩

/-- **`SPLAY_FIND` answers `NULL` exactly when no node matches.** -/
theorem find_eq_none_iff {c : α → Ordering} {t : SplayTree α} (hs : Searches c t.toList) :
    (find c t).2 = none ↔ ∀ z ∈ t.toList, c z ≠ .eq := by
  constructor
  · intro h z hz hzc
    obtain ⟨l, x, r, hsp, hx⟩ := root?_splay_of_mem hs hz hzc
    simp [find, hsp, hx] at h
  · intro h
    cases hf : (find c t).2 with
    | none => rfl
    | some x => exact absurd (find_eq_some hf).2 (h x (find_eq_some hf).1)

/-! ### Sorted insertion and removal -/

theorem pairwise_append_cons {A B : List α} {e : α} (hA : A.Pairwise fun a b => key a < key b)
    (hB : B.Pairwise fun a b => key a < key b) (hAe : ∀ a ∈ A, key a < key e)
    (heB : ∀ b ∈ B, key e < key b) : (A ++ e :: B).Pairwise fun a b => key a < key b := by
  refine List.pairwise_append.2 ⟨hA, List.pairwise_cons.2 ⟨heB, hB⟩, ?_⟩
  rintro a ha b (_ | ⟨_, hb⟩)
  exacts [hAe a ha, lt_trans (hAe a ha) (heB b hb)]

/-- A node equal to the sought one cannot sit on either side of it. -/
theorem append_cons_inj {l r A B : List α} {e : α} (h : l ++ e :: r = A ++ e :: B)
    (hl : e ∉ l) (hA : e ∉ A) : l = A ∧ r = B := by
  induction l generalizing A with
  | nil =>
    cases A with
    | nil => simpa using h
    | cons a A => simp only [List.nil_append, List.cons_append, List.cons.injEq] at h
                  exact absurd (List.mem_cons.2 (.inl h.1)) hA
  | cons a l ih =>
    cases A with
    | nil => simp only [List.nil_append, List.cons_append, List.cons.injEq] at h
             exact absurd (List.mem_cons.2 (.inl h.1.symm)) hl
    | cons b A =>
      simp only [List.cons_append, List.cons.injEq] at h
      obtain ⟨rfl, h⟩ := h
      obtain ⟨rfl, rfl⟩ := ih h (fun h' => hl (List.mem_cons_of_mem _ h'))
        (fun h' => hA (List.mem_cons_of_mem _ h'))
      exact ⟨rfl, rfl⟩

section Operations

variable (key)

/-- `SPLAY_INSERT(elm)`: on an empty tree `elm` becomes the root; otherwise the tree is splayed on
`elm` and `elm` takes the root's place, the old root going to the side away from `elm`. The
second component is the C return value: the node of equal key already there, or `NULL`. -/
def insert (e : α) (t : SplayTree α) : SplayTree α × Option α :=
  if t.isNil then (node nil e nil, none)
  else
    match splay (fun x => compare (key e) (key x)) t with
    | nil => (nil, none)
    | node l x r =>
      match compare (key e) (key x) with
      | .lt => (node l e (node nil x r), none)
      | .gt => (node (node l x nil) e r, none)
      | .eq => (node l x r, some x)

/-- `SPLAY_REMOVE(elm)`: splay on `elm`; if the root has `elm`'s key, replace it by its right
subtree when it has no left one, and otherwise splay its left subtree on `elm` again and hang
the right subtree on the new root. The second component says whether a node was removed. -/
def remove (e : α) (t : SplayTree α) : SplayTree α × Bool :=
  if t.isNil then (t, false)
  else
    match splay (fun x => compare (key e) (key x)) t with
    | nil => (nil, false)
    | node l x r =>
      if compare (key e) (key x) = .eq then
        if l.isNil then (r, true)
        else
          match splay (fun x => compare (key e) (key x)) l with
          | nil => (r, true)
          | node l' y _ => (node l' y r, true)
      else (node l x r, false)

end Operations

/-- **`SPLAY_INSERT` of a new key is a sorted insertion.** -/
theorem insert_spec {e : α} {t : SplayTree α} (hs : Sorted key t)
    (he : ∀ z ∈ t.toList, key z ≠ key e) :
    Sorted key (insert key e t).1 ∧ (insert key e t).1.toList.Perm (e :: t.toList) ∧
      (insert key e t).2 = none := by
  unfold insert
  split_ifs with ht
  · cases t with
    | nil => simp [Sorted]
    | node => simp at ht
  have hne : t ≠ nil := isNil_eq_false.1 (by simpa using ht)
  have hsp := rootSplit_splay _ hne (searches_compare (key e) hs)
  have hts := toList_splay (fun x => compare (key e) (key x)) t
  cases h : splay (fun x => compare (key e) (key x)) t with
  | nil => rw [h] at hsp; exact hsp.elim
  | node l x r =>
    rw [h, toList_node] at hts
    rw [h] at hsp
    have hS : (l.toList ++ x :: r.toList).Pairwise fun a b => key a < key b := hts ▸ hs
    have hxr : ∀ b ∈ r.toList, key x < key b :=
      (List.pairwise_cons.1 (List.pairwise_append.1 hS).2.1).1
    rcases hsp with hx | ⟨hx, hl⟩ | ⟨hx, hr⟩
    · exact absurd (compare_eq_iff_eq.1 hx).symm
        (he x (hts ▸ List.mem_append_right _ (List.mem_cons_self x _)))
    · simp only [hx]
      refine ⟨?_, ?_, trivial⟩
      · simpa [Sorted] using pairwise_append_cons (List.pairwise_append.1 hS).1
          (List.pairwise_append.1 hS).2.1 (fun a ha => compare_gt_iff_gt.1 (hl a ha)) (by
            rintro b (_ | ⟨_, hb⟩)
            exacts [compare_lt_iff_lt.1 hx, lt_trans (compare_lt_iff_lt.1 hx) (hxr b hb)])
      · simp [← hts, List.perm_middle]
    · simp only [hx]
      refine ⟨?_, ?_, trivial⟩
      · have hlx := (List.pairwise_append.1 hS).2.2
        simpa [Sorted] using pairwise_append_cons (A := l.toList ++ [x])
          (hS.sublist (by simp)) (List.pairwise_append.1 hS).2.1.of_cons (by
            simp only [List.mem_append, List.mem_singleton]
            rintro a (ha | rfl)
            exacts [lt_trans (hlx a ha x (List.mem_cons_self _ _)) (compare_gt_iff_gt.1 hx),
              compare_gt_iff_gt.1 hx])
          (fun b hb => compare_lt_iff_lt.1 (hr b hb))
      · simpa [← hts] using @List.perm_middle _ e (l.toList ++ [x]) r.toList

theorem Sorted.nodup {t : SplayTree α} (hs : Sorted key t) : t.toList.Nodup :=
  hs.imp fun h hab => by subst hab; exact lt_irrefl _ h

/-- **`SPLAY_REMOVE` of a node is `List.erase`.** -/
theorem remove_spec [DecidableEq α] {e : α} {t : SplayTree α} (hs : Sorted key t) (he : e ∈ t.toList) :
    Sorted key (remove key e t).1 ∧ (remove key e t).1.toList = t.toList.erase e ∧
      (remove key e t).2 = true := by
  set c : α → Ordering := fun x => compare (key e) (key x)
  obtain ⟨l, x, r, hsp, hx⟩ :=
    root?_splay_of_mem (searches_compare (key e) hs) he (compare_eq_iff_eq.2 rfl)
  have hts := toList_splay c t
  rw [hsp, toList_node] at hts
  have hxt : x ∈ t.toList := hts ▸ List.mem_append_right _ (List.mem_cons_self x _)
  obtain rfl : x = e := eq_of_key_eq hs hxt he (compare_eq_iff_eq.1 hx).symm
  have hS : (l.toList ++ x :: r.toList).Pairwise fun a b => key a < key b := hts ▸ hs
  have hxl : x ∉ l.toList := fun h =>
    (List.nodup_append.1 (hts ▸ hs.nodup)).2.2 h (List.mem_cons_self x _)
  have herase : t.toList.erase x = l.toList ++ r.toList := by
    rw [← hts, List.erase_append_right _ hxl, List.erase_cons_head]
  have hlr : (l.toList ++ r.toList).Pairwise fun a b => key a < key b :=
    hS.sublist (List.Sublist.append_left (List.sublist_cons_self _ _) _)
  have htnil : t.isNil = false := by
    cases t with
    | nil => simp at he
    | node => rfl
  simp only [remove, htnil, hsp, hx, if_true, Bool.false_eq_true, if_false]
  split_ifs with hl
  · cases l with
    | nil => exact ⟨by simpa [Sorted] using hlr, by simp [herase], rfl⟩
    | node => simp at hl
  · have hlt : ∀ a ∈ l.toList, c a = .gt := fun a ha =>
      compare_gt_iff_gt.2 ((List.pairwise_append.1 hS).2.2 a ha x (List.mem_cons_self _ _))
    have hls : Searches c l.toList := searches_compare _ (List.pairwise_append.1 hS).1
    have hlne : l ≠ nil := isNil_eq_false.1 (by simpa using hl)
    have hsp' := rootSplit_splay c hlne hls
    have hl' := toList_splay c l
    cases h : splay c l with
    | nil => exact absurd h ((splay_eq_nil_iff c).not.2 hlne)
    | node l' y r' =>
      rw [h] at hsp' hl'
      have hy : y ∈ l.toList := hl' ▸ by simp
      have hr' : r'.toList = [] := by
        rcases hsp' with hyc | ⟨hyc, _⟩ | ⟨_, hr'⟩
        · simp [hlt y hy] at hyc
        · simp [hlt y hy] at hyc
        · refine List.eq_nil_iff_forall_not_mem.2 fun z hz => ?_
          have hzl : z ∈ l.toList := hl' ▸ by simp [hz]
          simpa [hlt z hzl] using hr' z hz
      simp only [toList_node, hr', List.append_nil] at hl'
      refine ⟨?_, ?_, rfl⟩
      · simpa [Sorted, ← hl'] using hlr
      · simp [herase, ← hl']

/-! ### In-order traversal -/

section Traversal

variable (key)

/-- `SPLAY_MIN`: `SPLAY_MINMAX(head, SPLAY_NEGINF)` splays as if every comparison were `< 0`,
which brings the least node to the root. -/
def min (t : SplayTree α) : SplayTree α × Option α :=
  if t.isNil then (t, none)
  else
    let t' := splay (fun _ => .lt) t
    (t', t'.root?)

/-- `SPLAY_RIGHT(elm, field)`: the right child of the node holding `e`. -/
def rightOf [DecidableEq α] (e : α) : SplayTree α → Option (SplayTree α)
  | nil => none
  | node l x r => if x = e then some r else (rightOf e l).orElse fun _ => rightOf e r

/-- The `while (SPLAY_LEFT(elm, field) != NULL)` walk down the left children. -/
def leftmost : SplayTree α → Option α
  | nil => none
  | node l x _ => if l.isNil then some x else leftmost l

/-- `SPLAY_NEXT(elm)`: splay on `elm`, then the leftmost node of `elm`'s right subtree, or
`NULL` if it has none. -/
def next [DecidableEq α] (e : α) (t : SplayTree α) : SplayTree α × Option α :=
  let t' := splay (fun x => compare (key e) (key x)) t
  (t', (rightOf e t').bind leftmost)

/-- The `SPLAY_FOREACH` loop from node `x` on, for at most `n` nodes: the nodes visited and the
tree the loop leaves. -/
def foreachFrom [DecidableEq α] : ℕ → SplayTree α → α → List α × SplayTree α
  | 0, t, _ => ([], t)
  | n + 1, t, x =>
    match next key x t with
    | (t', none) => ([x], t')
    | (t', some y) => let r := foreachFrom n t' y; (x :: r.1, r.2)

/-- `SPLAY_FOREACH(x, name, head)`: `SPLAY_MIN`, then `SPLAY_NEXT` until it returns `NULL`. The
loop is given as many rounds as the tree has nodes; `foreach_spec` shows it needs all of them
and no more. -/
def foreach [DecidableEq α] (t : SplayTree α) : List α × SplayTree α :=
  match min t with
  | (t', none) => ([], t')
  | (t', some x) => foreachFrom key t.count t' x

end Traversal

theorem leftmost_eq_head? (t : SplayTree α) : leftmost t = t.toList.head? := by
  induction t with
  | nil => rfl
  | node l x r ihl _ =>
    cases l with
    | nil => rfl
    | node => simpa [leftmost] using ihl

@[simp] theorem toList_min (t : SplayTree α) : (min t).1.toList = t.toList := by
  unfold min; split_ifs <;> simp

theorem min_eq_head? (t : SplayTree α) : (min t).2 = t.toList.head? := by
  unfold min
  split_ifs with ht
  · cases t with
    | nil => rfl
    | node => simp at ht
  have hne : t ≠ nil := isNil_eq_false.1 (by simpa using ht)
  have hsp := rootSplit_splay (fun _ => Ordering.lt) hne (searches_const_lt _)
  have hts := toList_splay (fun _ => Ordering.lt) t
  cases h : splay (fun _ => Ordering.lt) t with
  | nil => rw [h] at hsp; exact hsp.elim
  | node l x r =>
    rw [h] at hsp hts
    have hl : l.toList = [] := by
      rcases hsp with hx | ⟨_, hl⟩ | ⟨hx, _⟩
      · simp at hx
      · exact List.eq_nil_iff_forall_not_mem.2 fun z hz => by simpa using hl z hz
      · simp at hx
    simp [root?, ← hts, hl]

theorem next_spec [DecidableEq α] {e : α} {t : SplayTree α} (hs : Sorted key t)
    {pre post : List α} (ht : t.toList = pre ++ e :: post) :
    (next key e t).1.toList = t.toList ∧ (next key e t).2 = post.head? := by
  refine ⟨toList_splay _ t, ?_⟩
  have he : e ∈ t.toList := ht ▸ List.mem_append_right _ (List.mem_cons_self e _)
  obtain ⟨l, x, r, hsp, hx⟩ :=
    root?_splay_of_mem (searches_compare (key e) hs) he (compare_eq_iff_eq.2 rfl)
  have hts := toList_splay (fun x => compare (key e) (key x)) t
  rw [hsp, toList_node] at hts
  obtain rfl : x = e := eq_of_key_eq hs (hts ▸ by simp) he (compare_eq_iff_eq.1 hx).symm
  have hnd := hs.nodup
  have hxl : x ∉ l.toList := fun h =>
    (List.nodup_append.1 (hts ▸ hnd)).2.2 h (List.mem_cons_self x _)
  have hxpre : x ∉ pre := fun h => (List.nodup_append.1 (ht ▸ hnd)).2.2 h (List.mem_cons_self x _)
  obtain ⟨-, hr⟩ := append_cons_inj (hts.trans ht) hxl hxpre
  simp [next, hsp, rightOf, leftmost_eq_head?, hr]

theorem foreachFrom_spec [DecidableEq α] {post : List α} :
    ∀ {t : SplayTree α} (x : α) (pre : List α) (n : ℕ), Sorted key t →
      t.toList = pre ++ x :: post → post.length < n →
      (foreachFrom key n t x).1 = x :: post ∧ (foreachFrom key n t x).2.toList = t.toList := by
  induction post with
  | nil =>
    intro t x pre n hs ht hn
    obtain ⟨m, rfl⟩ : ∃ m, n = m + 1 := ⟨n - 1, by simp at hn; omega⟩
    obtain ⟨h1, h2⟩ := next_spec hs ht
    rcases hnx : next key x t with ⟨t', oy⟩
    rw [hnx] at h1 h2
    simp only [List.head?_nil] at h1 h2
    subst h2
    simp [foreachFrom, hnx, h1]
  | cons y post ih =>
    intro t x pre n hs ht hn
    obtain ⟨m, rfl⟩ : ∃ m, n = m + 1 := ⟨n - 1, by simp at hn; omega⟩
    obtain ⟨h1, h2⟩ := next_spec hs ht
    rcases hnx : next key x t with ⟨t', oy⟩
    rw [hnx] at h1 h2
    simp only [List.head?_cons] at h1 h2
    subst h2
    have hs' : Sorted key t' := by unfold Sorted; rw [h1]; exact hs
    obtain ⟨ih1, ih2⟩ := ih y (pre ++ [x]) m hs' (by simp [h1, ht]) (by simp at hn; omega)
    simp only [foreachFrom, hnx]
    exact ⟨by rw [ih1], by rw [ih2, h1]⟩

/-- **`SPLAY_FOREACH` visits the in-order sequence.** On a search tree the loop visits every
node once, in increasing key order, ends because `SPLAY_NEXT` returns `NULL`, and leaves a tree
with the same nodes. -/
theorem foreach_spec [DecidableEq α] {t : SplayTree α} (hs : Sorted key t) :
    (foreach key t).1 = t.toList ∧ (foreach key t).2.toList = t.toList := by
  have hm := min_eq_head? t
  have hmt := toList_min t
  unfold foreach
  split
  · rename_i t' hmin
    rw [hmin] at hm hmt
    simp only at hm hmt
    cases h : t.toList with
    | nil => exact ⟨rfl, hmt.trans h⟩
    | cons => simp [h] at hm
  · rename_i t' x hmin
    rw [hmin] at hm hmt
    simp only at hm hmt
    cases h : t.toList with
    | nil => simp [h] at hm
    | cons y post =>
      simp only [h, List.head?_cons, Option.some.injEq] at hm
      subst hm
      have hs' : Sorted key t' := by unfold Sorted; rw [hmt]; exact hs
      obtain ⟨h1, h2⟩ := foreachFrom_spec x [] t.count hs' (by rw [hmt, h]; rfl)
        (by rw [count_eq_length, h]; simp)
      exact ⟨h1, by rw [h2, hmt, h]⟩

end SplayTree

end Flowd
