import Flowd.History.Lru

/-!
# The counters of a peer

`update_peer` counts a valid datagram (`npackets`, `nflows`, `last_version`), `process_input`
and the decoders count a datagram that is too short or fails a check (`ninvalid`), and a
datagram of a version with no decoder changes nothing. A peer's counters start at zero when
`new_peer` creates its node and are lost when the node is deleted. So the counters of a
registered peer are functions of the datagrams from its address since its node was created.

The three counters are `u_int64_t`s. They count modulo `2 ^ 64`: after `2 ^ 64` valid datagrams
from one exporter, `npackets` is back at `0` (`Flowd.npackets_wraps`).

`PeerState.account` is what one verdict does to a record; `Registry.Inv.find_input_self` and
`find_input_other` say what one input does to the record of an address, and
`Registry.Inv.find_inputs` follows a record back along a run to the input that created it;
`Flowd.processInputs_record` says the same of the code. The counts themselves are read off with
`counters_accountInputs`, in the terms of the spec.

## Main results

* `Flowd.Registry.Inv.find_inputs` — the record of a registered address after a run is the
  record of its creation, or of the start of the run, with every later datagram from the
  address accounted
* `Flowd.processInputs_record` — in the code, from the empty registry: every node on the list
  holds a fresh record with the datagrams from its address since its creation accounted
* `Flowd.peer_counters` — `npackets`, `nflows`, `ninvalid` and `last_version` of every
  registered peer count the datagrams from its address since its node was created, modulo
  `2 ^ 64`, and `nflows` is also the number of records handed to `process_flow` for it since then
-/

namespace Flowd

/-- The verdicts `ninvalid` counts: too short for the common header, or a decoded version
failing one of its checks. -/
def Verdict.isRejected : Verdict → Bool
  | .short | .invalid _ => true
  | _ => false

/-- The flows a verdict hands on. -/
def Verdict.nflows : Verdict → ℕ
  | .valid _ n => n
  | _ => 0

/-- The version a valid verdict records. -/
def Verdict.version? : Verdict → Option ℕ
  | .valid v _ => some v.number
  | _ => none

/-- What the verdict on a datagram does to the record of its source. -/
def PeerState.account (p : PeerState) (now : Timeval) : Verdict → PeerState
  | .short | .invalid _ => { p with ninvalid := p.ninvalid + 1 }
  | .unsupported => p
  | .valid v n => p.touch n v.number now

/-- The datagram an input carries from `a`, if any. -/
def Recv.dataFrom (a : Xaddr) : Recv → Option (List UInt8)
  | .datagram (some b) data => if b = a then some data else none
  | _ => none

/-- The datagrams from `a` in a run, in order. -/
def datagramsFrom (a : Xaddr) (es : List Input) : List (List UInt8) :=
  es.filterMap (·.recv.dataFrom a)

/-- A record with every datagram from `a` in a run accounted, in order. -/
def PeerState.accountInputs (a : Xaddr) : PeerState → List Input → PeerState
  | p, [] => p
  | p, e :: es =>
    match e.recv.dataFrom a with
    | some data => (p.account e.now (classify data)).accountInputs a es
    | none => p.accountInputs a es

theorem source_eq_some {a : Xaddr} {e : Recv} (h : e.source = some a) :
    ∃ data, e = .datagram (some a) data := by
  match e, h with
  | .datagram (some _) data, rfl => exact ⟨data, rfl⟩

theorem dataFrom_eq_none {a : Xaddr} {e : Recv} (h : e.source ≠ some a) : e.dataFrom a = none := by
  match e with
  | .error | .datagram none _ => rfl
  | .datagram (some b) _ => exact if_neg fun hb => h (congrArg some hb)

theorem counters_account (p : PeerState) (now : Timeval) (v : Verdict) :
    (p.account now v).npackets.toNat =
        (p.npackets.toNat + if v.isValid then 1 else 0) % 2 ^ 64 ∧
      (p.account now v).nflows.toNat = (p.nflows.toNat + v.nflows) % 2 ^ 64 ∧
      (p.account now v).ninvalid.toNat =
        (p.ninvalid.toNat + if v.isRejected then 1 else 0) % 2 ^ 64 ∧
      (p.account now v).lastVersion = v.version?.getD p.lastVersion ∧
      (p.account now v).firstseen = p.firstseen := by
  have := p.npackets.toNat_lt
  have := p.nflows.toNat_lt
  have := p.ninvalid.toNat_lt
  cases v <;> refine ⟨?_, ?_, ?_, rfl, rfl⟩ <;>
    simp [PeerState.account, PeerState.touch, Verdict.isValid, Verdict.isRejected, Verdict.nflows,
      uint64_toNat_add_one, uint64_toNat_add_ofNat] <;> omega

/-- **The counts.** Accounting the datagrams of a run adds the valid ones to `npackets`, their
flows to `nflows`, and the rejected ones to `ninvalid`, each modulo `2 ^ 64`, and leaves the
version of the last valid one in `last_version`. -/
theorem counters_accountInputs (a : Xaddr) (p : PeerState) (es : List Input) :
    (p.accountInputs a es).npackets.toNat =
        (p.npackets.toNat + (datagramsFrom a es).countP (fun d => (classify d).isValid)) %
          2 ^ 64 ∧
      (p.accountInputs a es).nflows.toNat =
        (p.nflows.toNat + ((datagramsFrom a es).map fun d => (classify d).nflows).sum) % 2 ^ 64 ∧
      (p.accountInputs a es).ninvalid.toNat =
        (p.ninvalid.toNat + (datagramsFrom a es).countP (fun d => (classify d).isRejected)) %
          2 ^ 64 ∧
      (p.accountInputs a es).lastVersion =
        (((datagramsFrom a es).filterMap fun d => (classify d).version?).getLast?).getD
          p.lastVersion ∧
      (p.accountInputs a es).firstseen = p.firstseen := by
  induction es generalizing p with
  | nil =>
    exact ⟨(Nat.mod_eq_of_lt p.npackets.toNat_lt).symm, (Nat.mod_eq_of_lt p.nflows.toNat_lt).symm,
      (Nat.mod_eq_of_lt p.ninvalid.toNat_lt).symm, rfl, rfl⟩
  | cons e es ih =>
    cases hd : e.recv.dataFrom a with
    | none => simpa [PeerState.accountInputs, datagramsFrom, hd] using ih p
    | some data =>
      obtain ⟨h₁, h₂, h₃, h₄, h₅⟩ := ih (p.account e.now (classify data))
      obtain ⟨k₁, k₂, k₃, k₄, k₅⟩ := counters_account p e.now (classify data)
      simp only [PeerState.accountInputs, datagramsFrom, hd, List.filterMap_cons, List.countP_cons,
        List.map_cons, List.sum_cons] at h₁ h₂ h₃ h₄ h₅ ⊢
      rw [h₁, h₂, h₃, h₄, h₅, k₁, k₂, k₃, k₄, k₅, Nat.mod_add_mod, Nat.mod_add_mod, Nat.mod_add_mod]
      refine ⟨by rw [Nat.add_assoc, Nat.add_comm (ite _ _ _)], by rw [Nat.add_assoc],
        by rw [Nat.add_assoc, Nat.add_comm (ite _ _ _)], ?_, rfl⟩
      cases (classify data).version? <;> simp [List.getLast?_cons]

namespace Registry

variable {r : Registry}

/-! ### What one input does to a record -/

theorem find_tally_self (h : r.Inv) {a : Xaddr} {p : PeerState} (hp : r.find a = some p)
    (now : Timeval) (v : Verdict) : (r.tally a now v).find a = some (p.account now v) := by
  have hpa : p.from = a := ((find_eq_some_iff h).1 hp).2
  cases v <;> simp [tally, PeerState.account, find_bumpInvalid, find_updatePeer, hp, hpa]

theorem find_tally_other (r : Registry) {a b : Xaddr} (hab : b ≠ a) (now : Timeval)
    (v : Verdict) : (r.tally b now v).find a = r.find a := by
  cases v <;> simp only [tally, find_updatePeer, if_neg hab]
  all_goals
    rw [find_bumpInvalid]
    refine (Option.map_congr fun p hp => if_neg fun hpb => hab ?_).trans Option.map_id'
    rw [← hpb, from_of_find hp]

theorem find_newPeer_self (r : Registry) (a : Xaddr) (now : Timeval) :
    (r.newPeer a now).find a = some (Peers.freshPeer a now) := by
  simp [newPeer, find, List.find?_cons]

/-- A record `new_peer` does not evict is the record it was. -/
theorem find_newPeer_other (h : r.Inv) {a b : Xaddr} (hab : b ≠ a) (now : Timeval) :
    (r.newPeer b now).find a = r.find a ∨ (r.newPeer b now).find a = none := by
  have hf : (r.newPeer b now).find a = r.makeRoom.find a := by
    simp [newPeer, find, List.find?_cons, hab]
  rw [hf]
  cases hq : r.makeRoom.find a with
  | none => exact .inr rfl
  | some q =>
    refine .inl ((find_eq_some_iff h).2 ⟨(makeRoom_peers_sublist r).subset
      (List.mem_of_find?_eq_some hq), from_of_find hq⟩).symm

/-- A datagram from `a` is accounted against its record, a fresh one if it has none. -/
theorem Inv.find_input_self (h : r.Inv) (a : Xaddr) (now : Timeval) (data : List UInt8) :
    (r.input now (.datagram (some a) data)).find a =
      some (((r.find a).getD (Peers.freshPeer a now)).account now (classify data)) := by
  simp only [Registry.input]
  by_cases ha : r.Registered a
  · obtain ⟨p, hp⟩ := Option.ne_none_iff_exists'.1 ((find_eq_none_iff.not).2 (not_not.2 ha))
    rw [if_pos ha, find_tally_self h hp, hp, Option.getD_some]
  · rw [if_neg ha, find_tally_self (h.newPeer ha now) (find_newPeer_self r a now),
      find_eq_none_iff.2 ha, Option.getD_none]

/-- Any other input leaves the record of `a` as it was, unless `new_peer` evicts it. -/
theorem Inv.find_input_other (h : r.Inv) {a : Xaddr} (now : Timeval) {e : Recv}
    (he : e.source ≠ some a) : (r.input now e).find a = r.find a ∨ (r.input now e).find a = none := by
  match e with
  | .error | .datagram none _ => exact .inl rfl
  | .datagram (some b) data =>
    have hab : b ≠ a := fun hb => he (congrArg some hb)
    simp only [Registry.input, find_tally_other _ hab]
    split_ifs
    · exact .inl rfl
    · exact find_newPeer_other h hab now

/-! ### Along a run -/

/-- **A record, followed back along a run.** The record of `a` after a run either was there at
its start, stayed registered throughout, and has every datagram from `a` accounted; or it was
created by an input `e` from `a` at a point where `a` had none, stayed registered after, and is
a fresh record with `e` and every later datagram from `a` accounted. -/
theorem Inv.find_inputs (h : r.Inv) (es : List Input) (a : Xaddr) {q : PeerState}
    (hq : (r.inputs es).find a = some q) :
    (∃ p, r.find a = some p ∧ (∀ es₁ es₂, es = es₁ ++ es₂ → (r.inputs es₁).Registered a) ∧
        q = p.accountInputs a es) ∨
      ∃ pre e post, es = pre ++ e :: post ∧ e.recv.source = some a ∧
        ¬ (r.inputs pre).Registered a ∧
        (∀ post₁ post₂, post = post₁ ++ post₂ → (r.inputs (pre ++ e :: post₁)).Registered a) ∧
        q = (Peers.freshPeer a e.now).accountInputs a (e :: post) := by
  induction es generalizing r with
  | nil =>
    refine .inl ⟨q, hq, fun es₁ es₂ he => ?_, rfl⟩
    obtain ⟨rfl, -⟩ := List.append_eq_nil.1 he.symm
    rw [inputs_nil] at hq ⊢
    exact not_not.1 (find_eq_none_iff.not.1 (by simp [hq]))
  | cons e es ih =>
    rcases ih (h.input e.now e.recv) hq with
      ⟨p₁, hp₁, hreg, rfl⟩ | ⟨pre, e', post, rfl, hs, hn, hreg, rfl⟩
    · have hpre : r.Registered a → ∀ es₁ es₂, e :: es = es₁ ++ es₂ → (r.inputs es₁).Registered a
          | ha, [], _, _ => ha
          | _, e' :: es₁, es₂, hes => by
            simp only [List.cons_append, List.cons.injEq] at hes
            obtain ⟨rfl, hes⟩ := hes
            exact hreg es₁ es₂ hes
      by_cases hs : e.recv.source = some a
      · obtain ⟨data, he⟩ := source_eq_some hs
        have hacc : ∀ p : PeerState, p.accountInputs a (e :: es) =
            (p.account e.now (classify data)).accountInputs a es := fun p => by
          simp [PeerState.accountInputs, he, Recv.dataFrom]
        rw [he, h.find_input_self] at hp₁
        cases hf : r.find a with
        | some p =>
          rw [hf, Option.getD_some] at hp₁
          obtain rfl := Option.some.inj hp₁
          exact .inl ⟨p, rfl, hpre (not_not.1 (find_eq_none_iff.not.1 (by simp [hf]))),
            (hacc p).symm⟩
        | none =>
          rw [hf, Option.getD_none] at hp₁
          refine .inr ⟨[], e, es, rfl, hs, find_eq_none_iff.1 hf, fun post₁ post₂ h' => ?_, ?_⟩
          · simpa using hreg post₁ post₂ h'
          · rw [hacc, ← Option.some.inj hp₁]
      · rcases h.find_input_other e.now hs with h' | h' <;> rw [h'] at hp₁
        · refine .inl ⟨p₁, hp₁, hpre (not_not.1 (find_eq_none_iff.not.1 (by simp [hp₁]))), ?_⟩
          simp [PeerState.accountInputs, dataFrom_eq_none hs]
        · cases hp₁
    · exact .inr ⟨e :: pre, e', post, rfl, hs, hn, hreg, rfl⟩

end Registry

/-! ### In the code -/

/-- The records of a run handed to `process_flow` with agent address `a` are the flows of the
valid datagrams from `a`. -/
theorem countP_records (a : Xaddr) (es : List Input) :
    (Input.records es).countP (fun f => f.agentAddr = a) =
      ((datagramsFrom a es).map fun d => (classify d).nflows).sum := by
  induction es with
  | nil => rfl
  | cons e es ih =>
    have hone : (e.recv.records e.time).countP (fun f => f.agentAddr = a) =
        ((e.recv.dataFrom a).map fun d => (classify d).nflows).getD 0 := by
      match e.recv with
      | .error | .datagram none _ => rfl
      | .datagram (some b) data =>
        simp only [Recv.records, Recv.dataFrom]
        by_cases hb : b = a
        · subst hb
          simp only [if_true, Option.map_some', Option.getD_some]
          cases classify data with
          | valid v n => simp [validRecords, Verdict.nflows, Function.comp_def, List.countP_eq_length]
          | _ => rfl
        · simp only [hb, if_false, Option.map_none', Option.getD_none]
          cases classify data with
          | valid v n => simp [validRecords, hb, List.countP_eq_zero]
          | _ => rfl
    simp only [Input.records, List.flatMap_cons, List.countP_append] at ih ⊢
    rw [ih, hone]
    cases hd : e.recv.dataFrom a <;> simp [datagramsFrom, hd, Nat.add_comm]

theorem records_append (es es' : List Input) :
    Input.records (es ++ es') = Input.records es ++ Input.records es' :=
  List.flatMap_append _ _ _

/-- After a datagram from `a`, `a` is registered. -/
theorem Registry.Inv.registered_inputs_snoc {r : Registry} (h : r.Inv) (es : List Input)
    {e : Input} {a : Xaddr} {data : List UInt8} (he : e.recv = .datagram (some a) data) :
    (r.inputs (es ++ [e])).Registered a := by
  have hf := (h.inputs es).find_input_self a e.now data
  rw [Registry.inputs_append, Registry.inputs_cons, Registry.inputs_nil, he]
  exact not_not.1 (Registry.find_eq_none_iff.not.1 (by simp [hf]))

/-- The same in the code, along a run from the empty registry. -/
theorem processInputs_registered_snoc {maxPeers : ℕ} (hmax : 0 < maxPeers)
    (heap : Ptr → PeerState) (es : List Input) {e : Input} {a : Xaddr} {data : List UInt8}
    (he : e.recv = .datagram (some a) data) {s : Peers} {flows : List StoreFlowComplete}
    (h : processInputs (Peers.init maxPeers heap) (es ++ [e]) = some (s, flows)) :
    s.Registered a := by
  obtain ⟨s₁, h₁, -, habs⟩ := (Peers.inv_init hmax heap).processInputs (es ++ [e])
  obtain ⟨rfl, -⟩ := Prod.mk.inj (Option.some.inj (h.symm.trans h₁))
  rw [← Peers.registered_abs, habs, Peers.abs_init]
  exact (Registry.inv_init hmax).registered_inputs_snoc es he

/-- **A record in the code, followed back along a run.** Along any run from the empty registry,
every node on the list was created by an input `e` from its address at a point where the address
had no node, has stayed registered since, and holds a fresh record with `e` and every later
datagram from its address accounted. -/
theorem processInputs_record {maxPeers : ℕ} (hmax : 0 < maxPeers) (heap : Ptr → PeerState)
    (es : List Input) :
    ∃ s', processInputs (Peers.init maxPeers heap) es = some (s', Input.records es) ∧
      ∀ p ∈ s'.peerList, ∃ pre e post s₀,
        es = pre ++ e :: post ∧ e.recv.source = some (s'.key p) ∧
        processInputs (Peers.init maxPeers heap) pre = some (s₀, Input.records pre) ∧
        ¬ s₀.Registered (s'.key p) ∧
        processInputs s₀ (e :: post) = some (s', Input.records (e :: post)) ∧
        (∀ post₁ post₂, post = post₁ ++ post₂ → ∃ s₁,
          processInputs s₀ (e :: post₁) = some (s₁, Input.records (e :: post₁)) ∧
            s₁.Registered (s'.key p)) ∧
        s'.heap p = (Peers.freshPeer (s'.key p) e.now).accountInputs (s'.key p) (e :: post) := by
  obtain ⟨s', hrun, h, habs⟩ := (Peers.inv_init hmax heap).processInputs es
  refine ⟨s', hrun, fun p hp => ?_⟩
  have hfind : ((Registry.init maxPeers).inputs es).find (s'.key p) = some (s'.heap p) := by
    rw [← Peers.abs_init maxPeers heap, ← habs]; exact h.find_abs hp
  rcases (Registry.inv_init hmax).find_inputs es _ hfind with ⟨p₀, hp₀, -⟩ |
    ⟨pre, e, post, rfl, hs, hn, hreg, hq⟩
  · cases hp₀
  obtain ⟨s₀, h₀, hi₀, ha₀⟩ := (Peers.inv_init hmax heap).processInputs pre
  obtain ⟨s₁, h₁, -, -⟩ := hi₀.processInputs (e :: post)
  obtain ⟨rfl, -⟩ := Prod.mk.inj (Option.some.inj ((processInputs_append h₀ h₁).symm.trans hrun))
  refine ⟨pre, e, post, s₀, rfl, hs, h₀, ?_, h₁, fun post₁ post₂ hpost => ?_, hq⟩
  · rwa [← Peers.registered_abs, ha₀, Peers.abs_init]
  · obtain ⟨s₂, h₂, -, ha₂⟩ := hi₀.processInputs (e :: post₁)
    refine ⟨s₂, h₂, ?_⟩
    rw [← Peers.registered_abs, ha₂, ha₀, Peers.abs_init, ← Registry.inputs_append]
    exact hreg post₁ post₂ hpost

/-- **The counters of every registered peer count the datagrams since its creation, modulo
`2 ^ 64`.** Along any run from the empty registry, every node on the list was created by an input
`e` from its address at a point where the address had no node, and has stayed registered since.
Counting only the datagrams from that address from `e` on, and modulo `2 ^ 64` since the three
counters are `u_int64_t`s: `npackets` is the number of valid ones, `nflows` the sum of their
flow counts and also the number of records handed to `process_flow` with that agent address,
and `ninvalid` the number that were too short or failed a check of their version. `last_version`
is the version of the last valid one, `0` if none; datagrams of a version with no decoder count
nowhere. -/
theorem peer_counters {maxPeers : ℕ} (hmax : 0 < maxPeers) (heap : Ptr → PeerState)
    (es : List Input) :
    ∃ s' flows, processInputs (Peers.init maxPeers heap) es = some (s', flows) ∧
      ∀ p ∈ s'.peerList, ∃ pre e post s₀ flows₀ flows₁,
        es = pre ++ e :: post ∧ e.recv.source = some (s'.key p) ∧
        processInputs (Peers.init maxPeers heap) pre = some (s₀, flows₀) ∧
        ¬ s₀.Registered (s'.key p) ∧
        processInputs s₀ (e :: post) = some (s', flows₁) ∧ flows = flows₀ ++ flows₁ ∧
        (∀ post₁ post₂, post = post₁ ++ post₂ → ∃ s₁ flows₂,
          processInputs s₀ (e :: post₁) = some (s₁, flows₂) ∧ s₁.Registered (s'.key p)) ∧
        let ds := datagramsFrom (s'.key p) (e :: post)
        (s'.heap p).npackets.toNat = ds.countP (fun d => (classify d).isValid) % 2 ^ 64 ∧
        (s'.heap p).nflows.toNat = (ds.map fun d => (classify d).nflows).sum % 2 ^ 64 ∧
        (s'.heap p).nflows.toNat = flows₁.countP (fun f => f.agentAddr = s'.key p) % 2 ^ 64 ∧
        (s'.heap p).ninvalid.toNat = ds.countP (fun d => (classify d).isRejected) % 2 ^ 64 ∧
        (s'.heap p).lastVersion = ((ds.filterMap fun d => (classify d).version?).getLast?).getD 0 ∧
        (s'.heap p).firstseen = e.now := by
  obtain ⟨s', hrun, h⟩ := processInputs_record hmax heap es
  refine ⟨s', _, hrun, fun p hp => ?_⟩
  obtain ⟨pre, e, post, s₀, rfl, hs, h₀, hn, h₁, hreg, hq⟩ := h p hp
  obtain ⟨n₁, n₂, n₃, n₄, n₅⟩ := counters_accountInputs (s'.key p)
    (Peers.freshPeer (s'.key p) e.now) (e :: post)
  rw [← hq] at n₁ n₂ n₃ n₄ n₅
  simp only [Peers.freshPeer, UInt64.toNat_zero, Nat.zero_add] at n₁ n₂ n₃ n₄ n₅
  refine ⟨pre, e, post, s₀, _, _, rfl, hs, h₀, hn, h₁, records_append _ _,
    fun post₁ post₂ hpost => ?_, n₁, n₂, by rw [countP_records, n₂], n₃, n₄, n₅⟩
  obtain ⟨s₁, h₂, hr⟩ := hreg post₁ post₂ hpost
  exact ⟨s₁, _, h₂, hr⟩

/-- One empty datagram from one exporter: its peer is registered and counted as invalid. -/
theorem peer_counters_short :
    ∃ s' flows, processInputs (Peers.init 2 fun _ => Peers.freshPeer (.v4 0) ⟨0, 0⟩)
        (emptyDatagrams [.v4 1]) = some (s', flows) ∧ s'.peerList ≠ [] ∧
      ∀ p ∈ s'.peerList, (s'.heap p).ninvalid.toNat = 1 ∧ (s'.heap p).npackets.toNat = 0 := by
  obtain ⟨s', flows, h, hc⟩ := peer_counters (by decide : 0 < 2)
    (fun _ => Peers.freshPeer (.v4 0) ⟨0, 0⟩) (emptyDatagrams [.v4 1])
  obtain ⟨p, hp, -⟩ := processInputs_registered_snoc (by decide : 0 < 2)
    (fun _ => Peers.freshPeer (.v4 0) ⟨0, 0⟩) [] rfl h
  refine ⟨s', flows, h, List.ne_nil_of_mem hp, fun p hp => ?_⟩
  obtain ⟨pre, e, post, -, -, -, hes, hs, -, -, -, -, -, hnp, -, -, hni, -, -⟩ := hc p hp
  obtain ⟨rfl, rfl, rfl⟩ : pre = [] ∧
      e = ⟨⟨0, 0⟩, Calloc.aboveAll, fun _ => 0, .datagram (some (.v4 1)) []⟩ ∧ post = [] := by
    rcases pre with _ | ⟨x, pre⟩
    · simp only [emptyDatagrams, List.map_cons, List.map_nil, List.nil_append,
        List.cons.injEq] at hes
      exact ⟨rfl, hes.1.symm, hes.2.symm⟩
    · simp [emptyDatagrams] at hes
  rw [← Option.some.inj hs] at hni hnp
  exact ⟨by simpa [datagramsFrom, Recv.dataFrom, classify, nfHeaderCommonSize,
    Verdict.isRejected] using hni, by simpa [datagramsFrom, Recv.dataFrom, classify,
    nfHeaderCommonSize, Verdict.isValid] using hnp⟩

/-- `2 ^ 64` valid datagrams from one exporter, `10.0.0.1`: its node is created by the first and
stays registered throughout, so every one of them counts, but `npackets` has wrapped to `0`. -/
theorem npackets_wraps :
    ∃ s' flows, processInputs (Peers.init 1 fun _ => Peers.freshPeer (.v4 0) ⟨0, 0⟩)
        (List.replicate (2 ^ 64) (oneFlowDatagram (.v4 0x0a000001))) = some (s', flows) ∧
      ∃ p ∈ s'.peerList, s'.key p = .v4 0x0a000001 ∧
        (∀ post₁ post₂, List.replicate (2 ^ 64 - 1) (oneFlowDatagram (.v4 0x0a000001)) =
            post₁ ++ post₂ → ∃ s₁ flows₁,
          processInputs (Peers.init 1 fun _ => Peers.freshPeer (.v4 0) ⟨0, 0⟩)
            (oneFlowDatagram (.v4 0x0a000001) :: post₁) = some (s₁, flows₁) ∧
            s₁.Registered (.v4 0x0a000001)) ∧
        (datagramsFrom (.v4 0x0a000001)
          (List.replicate (2 ^ 64) (oneFlowDatagram (.v4 0x0a000001)))).countP
            (fun d => (classify d).isValid) = 2 ^ 64 ∧
        (s'.heap p).npackets = 0 := by
  have hsucc : 2 ^ 64 - 1 + 1 = 2 ^ 64 := Nat.sub_add_cancel Nat.one_le_two_pow
  have hsplit : List.replicate (2 ^ 64) (oneFlowDatagram (.v4 0x0a000001)) =
      List.replicate (2 ^ 64 - 1) (oneFlowDatagram (.v4 0x0a000001)) ++
        [oneFlowDatagram (.v4 0x0a000001)] := by
    rw [← List.replicate_succ', hsucc]
  obtain ⟨s', hrun, h⟩ := processInputs_record (by decide : 0 < 1)
    (fun _ => Peers.freshPeer (.v4 0) ⟨0, 0⟩)
    (List.replicate (2 ^ 64) (oneFlowDatagram (.v4 0x0a000001)))
  obtain ⟨p, hp, hkey⟩ := processInputs_registered_snoc (by decide : 0 < 1)
    (fun _ => Peers.freshPeer (.v4 0) ⟨0, 0⟩) _ rfl (hsplit ▸ hrun)
  obtain ⟨pre, e, post, s₀, hes, -, h₀, hn, -, hreg, hq⟩ := h p hp
  have hmem : ∀ x ∈ pre ++ e :: post, x = oneFlowDatagram (.v4 0x0a000001) := fun x hx =>
    List.eq_of_mem_replicate (hes ▸ hx)
  obtain rfl : pre = [] := by
    rcases List.eq_nil_or_concat pre with hpre | ⟨L, b, rfl⟩
    · exact hpre
    · rw [List.concat_eq_append, hmem b (by simp)] at h₀
      exact absurd (processInputs_registered_snoc (by decide : 0 < 1) _ L rfl h₀) (hkey ▸ hn)
  obtain ⟨rfl, rfl⟩ : e = oneFlowDatagram (.v4 0x0a000001) ∧
      post = List.replicate (2 ^ 64 - 1) (oneFlowDatagram (.v4 0x0a000001)) := by
    rw [List.nil_append, ← hsucc, List.replicate_succ] at hes
    exact List.cons.inj hes.symm
  obtain ⟨rfl, -⟩ := Prod.mk.inj (Option.some.inj h₀)
  obtain ⟨n₁, -⟩ := counters_accountInputs (.v4 0x0a000001)
    (Peers.freshPeer (.v4 0x0a000001) (oneFlowDatagram (.v4 0x0a000001)).now)
    (oneFlowDatagram (.v4 0x0a000001) ::
      List.replicate (2 ^ 64 - 1) (oneFlowDatagram (.v4 0x0a000001)))
  have hcount : (datagramsFrom (.v4 0x0a000001)
      (List.replicate (2 ^ 64) (oneFlowDatagram (.v4 0x0a000001)))).countP
        (fun d => (classify d).isValid) = 2 ^ 64 := by
    rw [datagramsFrom, List.filterMap_replicate_of_some (b := v5OneFlow)
      (by simp [oneFlowDatagram, Recv.dataFrom]), List.countP_replicate]
    rfl
  refine ⟨s', _, hrun, p, hp, hkey, fun post₁ post₂ hpost => ?_, hcount, ?_⟩
  · obtain ⟨s₁, h₁, hr⟩ := hreg post₁ post₂ hpost
    exact ⟨s₁, _, h₁, hkey ▸ hr⟩
  · rw [hq, hkey]
    apply UInt64.toNat.inj
    rw [n₁, ← List.replicate_succ, hsucc, hcount]
    rfl

end Flowd
