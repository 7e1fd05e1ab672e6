import Flowd.Mainloop

/-!
# The worker over a script of the environment

`Loop.run` drives the worker through a list of `Flowd.Action`s, the script of what the
environment does: signals, the returns of the blocking calls, and the datagrams `recvfrom` hands
to `process_input`. A script the worker follows to its end is a run of `Flowd.Steps`
(`Flowd.Steps.of_run`).

Two parts of the worker's state have a model of their own that knows nothing of the loop:

* the peer table, whose contents `Peers.abs` are those of the list model `Flowd.Registry`;
* the log file, which `Flowd.logOf` computes from the script alone: `start_log` writes the header
  to an empty file, and each datagram appends the records of the flows that the configuration in
  force accepts, in order.

The worker refines both. Whatever else the script holds (signals at any point, reopens,
reconfigurations, `dump_peers`, wake-ups with nothing to read), the peer table is the registry
fed the datagrams of the script in order, and the log is `logOf` of the script, up to the torn
tail of a failed write. `dump_peers` splays the tree but keeps its contents; the handlers, `poll`
and the reopen block touch neither.

## Main results

* `Flowd.run_refines_registry` — over any script, the peer table stays valid and holds what
  `Registry.inputs` makes of the datagrams of the script
* `Flowd.run_log_eq_logOf` — over any script, the log file is a prefix of `logOf` of the script,
  and equal to it while the worker runs
-/

namespace Flowd

/-- The datagram an action hands to `process_input`. -/
def Action.input? : Action → Option Input
  | .received input _ => some input
  | _ => none

namespace Loop

/-- The worker follows a script: each action in turn, as long as `Loop.next` accepts it. -/
def run (s : Loop) : List Action → Option (Loop × List Event)
  | [] => some (s, [])
  | a :: acts => do
    let (s₁, e) ← s.next a
    let (s₂, tr) ← s₁.run acts
    some (s₂, e :: tr)

theorem run_cons {s s' : Loop} {a : Action} {acts : List Action} {tr : List Event}
    (h : s.run (a :: acts) = some (s', tr)) :
    ∃ s₁ e tr', s.next a = some (s₁, e) ∧ s₁.run acts = some (s', tr') ∧
      tr = e :: tr' := by
  simp only [run, Option.bind_eq_bind, Option.bind_eq_some, Option.some.injEq] at h
  obtain ⟨⟨s₁, e⟩, h₁, ⟨s₂, tr'⟩, h₂, he⟩ := h
  obtain ⟨rfl, rfl⟩ := Prod.mk.inj he
  exact ⟨s₁, e, tr', h₁, h₂, rfl⟩

@[simp] theorem handle_peers (s : Loop) (sg : Sig) : (s.handle sg).peers = s.peers := by
  cases sg <;> rfl

/-- Nothing happens once the process has ended. -/
theorem next_of_exited {s : Loop} (h : s.pc = .exited) (a : Action) : s.next a = none := by
  cases a <;> simp [next, advance, h]

theorem run_of_exited {s s' : Loop} {acts : List Action} {tr : List Event} (hx : s.pc = .exited)
    (h : s.run acts = some (s', tr)) : s' = s ∧ acts = [] := by
  cases acts with
  | nil => exact ⟨(Prod.mk.inj (Option.some.inj h)).1.symm, rfl⟩
  | cons a acts => simp [run, next_of_exited hx] at h

/-- A statement that takes nothing from the environment keeps the configuration, the header and
the log file, and at most splays the peer table, in `dump_peers`. -/
theorem next_step_frame {s s' : Loop} {e : Event} (h : s.next .step = some (s', e)) :
    s'.conf = s.conf ∧ s'.header = s.header ∧ s'.file = s.file ∧
      (s'.peers = s.peers ∨ s'.peers = s.peers.dumpPeers.1) := by
  have hs := step_of_next h
  cases hs with
  | dumpPeers _ => simp
  | received hpc hk he hr _ _ _ _ | receiveFailed hpc hk he hr _ _ _ _ =>
    simp [next, advance, hpc, hk, he, hr] at h
  | reconfigured hpc _ | opened hpc _ _ _ | openFailed hpc _ _ | polled hpc _ _
  | polledNone hpc _ _ | interrupted hpc => simp [next, advance, hpc] at h
  | _ => simp

/-- A datagram is handed to `process_input` in the dispatch loop, which keeps the configuration
and the header, and takes the registry and the log from `process_input` and `process_flow`; the
step's event is the call. -/
theorem next_received {s s' : Loop} {i : Input} {w : List Write} {e : Event}
    (h : s.next (.received i w) = some (s', e)) :
    ∃ k peers flows, s.pc = .dispatch k ∧
      processInput s.peers i.calloc i.now i.time i.recv = some (peers, flows) ∧
      (∃ fd, e = .processInput fd s.logFd) ∧
      s' = { s with
        pc := if (putFlows s.file s.conf.storeMask (flows.filterMap (processFlow s.conf)) w).2
          then .dispatch (k + 1) else .exited
        peers := peers
        file :=
          (putFlows s.file s.conf.storeMask (flows.filterMap (processFlow s.conf)) w).1 } := by
  simp only [next, advance] at h
  split at h
  · rename_i k hpc
    split_ifs at h
    split at h
    · split_ifs at h
      simp only [receive, Option.bind_eq_bind, Option.bind_eq_some] at h
      obtain ⟨⟨peers, flows⟩, hp, h⟩ := h
      obtain ⟨rfl, rfl⟩ := Prod.mk.inj (Option.some.inj h)
      exact ⟨k, peers, flows, hpc, hp, ⟨_, rfl⟩, rfl⟩
    · cases h
  · cases h

/-- Only a datagram handed to `process_input` makes a step whose event is the call. -/
theorem received_of_processInput {s s' : Loop} {a : Action} {fd : ℕ} {l : ℤ}
    (h : s.next a = some (s', .processInput fd l)) : ∃ i w, a = .received i w := by
  cases a with
  | received i w => exact ⟨i, w, rfl⟩
  | _ =>
    cases step_of_next h with
    | received hpc hk he hr _ _ _ _ | receiveFailed hpc hk he hr _ _ _ _ =>
      simp [next, advance, hpc, hk, he, hr] at h

end Loop

open Loop

theorem Steps.head {s s₁ s' : Loop} {a : Action} {e : Event} {tr : List Event}
    (h : s.next a = some (s₁, e)) (hs : Steps s₁ tr s') : Steps s (e :: tr) s' := by
  induction hs with
  | refl => exact (Steps.refl s).tail h
  | tail _ ha ih => exact ih.tail ha

/-- A script the worker follows to its end is a run. -/
theorem Steps.of_run {s s' : Loop} {acts : List Action} {tr : List Event}
    (h : s.run acts = some (s', tr)) : Steps s tr s' := by
  induction acts generalizing s tr with
  | nil => obtain ⟨rfl, rfl⟩ := Prod.mk.inj (Option.some.inj h); exact .refl s
  | cons a acts ih =>
    obtain ⟨s₁, e, tr', h₁, h₂, rfl⟩ := run_cons h
    exact Steps.head h₁ (ih h₂)

/-! ### The peer table refines the registry -/

/-- An action that hands nothing to `process_input` keeps the peer table, or splays it in
`dump_peers`. -/
theorem Loop.peers_of_input?_eq_none {s s' : Loop} {a : Action} {e : Event}
    (h : s.next a = some (s', e)) (ha : a.input? = none) :
    s'.peers = s.peers ∨ s'.peers = s.peers.dumpPeers.1 := by
  have hs := step_of_next h
  cases hs with
  | dumpPeers _ => exact .inr rfl
  | received hpc hk he hr _ _ _ _ | receiveFailed hpc hk he hr _ _ _ _ =>
    cases a <;> simp [Action.input?, next, advance, hpc, hk, he, hr] at h ha
  | signal => simp
  | _ => exact .inl rfl

/-- One action keeps the registry invariant and acts on the contents of the table as the
registry does on the datagram it carries. -/
theorem Peers.Inv.of_next {s s' : Loop} {a : Action} {e : Event} (hinv : Peers.Inv s.peers)
    (h : s.next a = some (s', e)) :
    Peers.Inv s'.peers ∧ s'.peers.abs = s.peers.abs.inputs a.input?.toList := by
  cases a with
  | received i w =>
    obtain ⟨k, peers, flows, -, hp, -, rfl⟩ := next_received h
    obtain ⟨s₁, hp₁, hinv₁, habs⟩ := hinv.processInput i.calloc i.now i.time i.recv
    obtain ⟨rfl, -⟩ := Prod.mk.inj (Option.some.inj (hp₁.symm.trans hp))
    exact ⟨hinv₁, habs⟩
  | _ =>
    rcases peers_of_input?_eq_none h rfl with hp | hp <;> rw [hp]
    exacts [⟨hinv, rfl⟩, ⟨hinv.dumpPeers, rfl⟩]

/-- Over any script, the peer table stays valid, and its contents are those the registry reaches
from the datagrams of the script, in order. -/
theorem run_refines_registry {s s' : Loop} {acts : List Action} {tr : List Event}
    (hinv : Peers.Inv s.peers) (h : s.run acts = some (s', tr)) :
    Peers.Inv s'.peers ∧ s'.peers.abs = s.peers.abs.inputs (acts.filterMap Action.input?) := by
  induction acts generalizing s tr with
  | nil => obtain ⟨rfl, rfl⟩ := Prod.mk.inj (Option.some.inj h); exact ⟨hinv, rfl⟩
  | cons a acts ih =>
    obtain ⟨s₁, e, tr', h₁, h₂, -⟩ := run_cons h
    obtain ⟨hinv₁, habs₁⟩ := hinv.of_next h₁
    obtain ⟨hinv', habs'⟩ := ih hinv₁ h₂
    refine ⟨hinv', ?_⟩
    rw [habs', habs₁, ← Registry.inputs_append, List.filterMap_cons]
    cases a.input? <;> rfl

/-- The first iteration of a worker with one listener, up to the dispatch loop: `init_pfd`, the
flag tests, a `start_log` that opens descriptor `7`, and a `poll` that reports input on the
listener. -/
def toDispatchScript : List Action :=
  [.step, .step, .step, .step, .step, .opened 7 .complete, .step, .polled [false, true], .step]

/-- Then `recvfrom` returns the datagram `v5OneFlow` from `10.0.0.1`, and its record is
written. -/
def firstDatagramScript : List Action :=
  toDispatchScript ++ [.received (oneFlowDatagram (.v4 0x0a000001)) []]

/-- With no failing write, every `store_put_flow` succeeds. -/
theorem putFlows_nil_writes (file : List UInt8) (mask : UInt32) (flows : List StoreFlowComplete) :
    (putFlows file mask flows []).2 = true := by
  induction flows generalizing file with
  | nil => rfl
  | cons flow flows ih => exact ih _

theorem Loop.run_append {s s₁ s₂ : Loop} {acts acts' : List Action} {tr tr' : List Event}
    (h : s.run acts = some (s₁, tr)) (h' : s₁.run acts' = some (s₂, tr')) :
    s.run (acts ++ acts') = some (s₂, tr ++ tr') := by
  induction acts generalizing s tr with
  | nil =>
    obtain ⟨rfl, rfl⟩ := Prod.mk.inj (Option.some.inj h)
    exact h'
  | cons a acts ih =>
    obtain ⟨s₀, e, tr₀, h₀, h₁, rfl⟩ := run_cons h
    simp [run, h₀, ih h₁]

/-- A worker with one listener on descriptor `5` and a filter that accepts every flow follows
`firstDatagramScript` to its end, in the dispatch loop past the listener. -/
theorem run_firstDatagramScript :
    ∃ s' tr, (Loop.init [1] ⟨[5], fun _ => .accept none, 0⟩ 3
        (Peers.init 1 fun _ => Peers.freshPeer (.v4 0) ⟨0, 0⟩) []).run firstDatagramScript =
        some (s', tr) ∧ s'.pc = .dispatch 1 := by
  obtain ⟨s₁, tr₁, h₁⟩ : ∃ s₁ tr₁, (Loop.init [1] ⟨[5], fun _ => .accept none, 0⟩ 3
      (Peers.init 1 fun _ => Peers.freshPeer (.v4 0) ⟨0, 0⟩) []).run toDispatchScript =
      some (s₁, tr₁) := ⟨_, _, rfl⟩
  have hs₁ : s₁.pc = .dispatch 0 ∧ s₁.conf.listenFds = [5] ∧ s₁.pfd[1]? = some ⟨5, true⟩ ∧
      s₁.peers = Peers.init 1 fun _ => Peers.freshPeer (.v4 0) ⟨0, 0⟩ := by
    obtain ⟨rfl, -⟩ := Prod.mk.inj (Option.some.inj h₁.symm)
    exact ⟨rfl, rfl, rfl, rfl⟩
  obtain ⟨peers, hp, -⟩ := (Peers.inv_init (show 0 < 1 by decide)
    fun _ => Peers.freshPeer (.v4 0) ⟨0, 0⟩).processInput Calloc.aboveAll ⟨0, 0⟩ (fun _ => 0)
      (.datagram (some (.v4 0x0a000001)) v5OneFlow)
  have h₂ : s₁.next (.received (oneFlowDatagram (.v4 0x0a000001)) []) =
      some ({ s₁ with
        pc := .dispatch 1
        peers := peers
        file := (putFlows s₁.file s₁.conf.storeMask
          (((Recv.datagram (some (.v4 0x0a000001)) v5OneFlow).records fun _ => 0).filterMap
            (processFlow s₁.conf)) []).1 }, .processInput 5 s₁.logFd) := by
    have hrecv : s₁.next (.received (oneFlowDatagram (.v4 0x0a000001)) []) =
        s₁.receive 0 5 (oneFlowDatagram (.v4 0x0a000001)) [] := by
      simp [Loop.next, Loop.advance, hs₁.1, hs₁.2.1, hs₁.2.2.1]
    rw [hrecv, Loop.receive, hs₁.2.2.2]
    dsimp only [oneFlowDatagram]
    rw [hp]
    simp [putFlows_nil_writes]
  exact ⟨_, _, Loop.run_append h₁ (by rw [Loop.run, h₂]; rfl), rfl⟩

theorem run_refines_registry_first_datagram :
    ∃ s' tr, (Loop.init [1] ⟨[5], fun _ => .accept none, 0⟩ 3
        (Peers.init 1 fun _ => Peers.freshPeer (.v4 0) ⟨0, 0⟩) []).run firstDatagramScript =
        some (s', tr) ∧ Peers.Inv s'.peers ∧
      s'.peers.abs = (Registry.init 1).inputs [oneFlowDatagram (.v4 0x0a000001)] := by
  obtain ⟨s', tr, h, -⟩ := run_firstDatagramScript
  exact ⟨s', tr, h, run_refines_registry (Peers.inv_init (by decide) _) h⟩

/-! ### The log file refines `logOf` -/

/-- What one action of a script does to the log: the configuration in force after it, and the
file. `start_log` writes the header only to an empty file; a datagram appends the record of each
flow it carries that the configuration accepts. -/
def logStep (conf : FlowdConfig) (header file : List UInt8) : Action → FlowdConfig × List UInt8
  | .reconfigured c => (c, file)
  | .opened _ _ => (conf, if file.length = 0 then header else file)
  | .received i _ =>
    (conf, file ++ (((i.recv.records i.time).filterMap (processFlow conf)).map
      (encodeFlow · conf.storeMask)).flatten)
  | _ => (conf, file)

/-- The log file a script leaves when no write fails. -/
def logOf (conf : FlowdConfig) (header file : List UInt8) : List Action → List UInt8
  | [] => file
  | a :: acts => logOf (logStep conf header file a).1 header (logStep conf header file a).2 acts

/-- What the `store_put_flow` calls leave is a prefix of what they would write if none failed. -/
theorem putFlows_prefix (file : List UInt8) (mask : UInt32) (flows : List StoreFlowComplete)
    (writes : List Write) :
    (putFlows file mask flows writes).1 <+: file ++ (flows.map (encodeFlow · mask)).flatten := by
  induction flows generalizing file writes with
  | nil => simp [putFlows]
  | cons flow flows ih =>
    simp only [putFlows, putFlow]
    split_ifs with hw
    · rw [Write.apply_of_ok hw]
      simpa using ih (file ++ encodeFlow flow mask) writes.tail
    · simpa using (Write.apply_prefix _ _).trans (List.prefix_append _ _)

theorem startLog_prefix (header file : List UInt8) (w : Write) :
    (startLog header file w).1 <+: if file.length = 0 then header else file := by
  unfold startLog
  split_ifs with h
  · simpa [List.length_eq_zero.1 h] using Write.apply_prefix w header
  · exact List.prefix_refl _

theorem startLog_of_ok {header file : List UInt8} {w : Write} (h : (startLog header file w).2) :
    (startLog header file w).1 = if file.length = 0 then header else file := by
  unfold startLog at h ⊢
  split_ifs with hf
  · simp_all [List.length_eq_zero.1 hf, Write.apply_of_ok]
  · rfl

/-- One action of a script, from a valid peer table, does to the configuration and the log what
`logStep` says, up to the torn tail of a failed write, which ends the process. -/
theorem Loop.next_log {s s' : Loop} {a : Action} {e : Event} (hinv : Peers.Inv s.peers)
    (h : s.next a = some (s', e)) :
    s'.header = s.header ∧ s'.conf = (logStep s.conf s.header s.file a).1 ∧
      s'.file <+: (logStep s.conf s.header s.file a).2 ∧
      (s'.pc ≠ .exited → s'.file = (logStep s.conf s.header s.file a).2) := by
  cases a with
  | step =>
    obtain ⟨hc, hh, hf, -⟩ := next_step_frame h
    simp [logStep, hc, hh, hf]
  | opened fd w =>
    simp only [next, advance] at h
    split_ifs at h with hpc hok <;> obtain ⟨rfl, -⟩ := Prod.mk.inj (Option.some.inj h)
    · simp [logStep, startLog_of_ok hok]
    · exact ⟨rfl, rfl, startLog_prefix _ _ _, fun h => absurd rfl h⟩
  | received i w =>
    obtain ⟨k, peers, flows, -, hp, -, rfl⟩ := next_received h
    obtain ⟨s₁, hp₁, -⟩ := hinv.processInput i.calloc i.now i.time i.recv
    obtain ⟨-, rfl⟩ := Prod.mk.inj (Option.some.inj (hp₁.symm.trans hp))
    refine ⟨rfl, rfl, putFlows_prefix _ _ _ _, fun hx => putFlows_of_ok ?_⟩
    by_contra hok
    exact hx (if_neg hok)
  | _ =>
    simp only [next, advance] at h
    split_ifs at h <;> obtain ⟨rfl, -⟩ := Prod.mk.inj (Option.some.inj h) <;> simp [logStep]

/-- Over any script, the log file is a prefix of the log `logOf` computes from the script, and
equal to it as long as the worker has not ended. -/
theorem run_log_eq_logOf {s s' : Loop} {acts : List Action} {tr : List Event}
    (hinv : Peers.Inv s.peers) (h : s.run acts = some (s', tr)) :
    s'.file <+: logOf s.conf s.header s.file acts ∧
      (s'.pc ≠ .exited → s'.file = logOf s.conf s.header s.file acts) := by
  induction acts generalizing s tr with
  | nil =>
    obtain ⟨rfl, rfl⟩ := Prod.mk.inj (Option.some.inj h)
    exact ⟨List.prefix_refl _, fun _ => rfl⟩
  | cons a acts ih =>
    obtain ⟨s₁, e, tr', h₁, h₂, -⟩ := run_cons h
    obtain ⟨hh, hc, hpre, heq⟩ := next_log hinv h₁
    by_cases hx : s₁.pc = .exited
    · obtain ⟨rfl, rfl⟩ := run_of_exited hx h₂
      exact ⟨hpre, fun hne => absurd hx hne⟩
    · have := ih (hinv.of_next h₁).1 h₂
      rwa [hh, hc, heq hx] at this

theorem run_log_eq_logOf_first_datagram :
    ∃ s' tr, (Loop.init [1] ⟨[5], fun _ => .accept none, 0⟩ 3
        (Peers.init 1 fun _ => Peers.freshPeer (.v4 0) ⟨0, 0⟩) []).run firstDatagramScript =
        some (s', tr) ∧
      s'.file = logOf ⟨[5], fun _ => .accept none, 0⟩ [1] [] firstDatagramScript := by
  obtain ⟨s', tr, h, hpc⟩ := run_firstDatagramScript
  exact ⟨s', tr, h,
    (run_log_eq_logOf (Peers.inv_init (by decide) _) h).2
      fun hx => Pc.noConfusion (hpc.symm.trans hx)⟩

end Flowd
