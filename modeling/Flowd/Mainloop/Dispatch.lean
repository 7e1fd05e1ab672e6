import Flowd.Mainloop.Pfd

/-!
# One pass of the dispatch loop

After `poll` returns and the monitor's entry is quiet, `flowd_mainloop` walks
`conf->listen_addrs` with the index `i` of `pfd` beside it, from `1`, and calls `process_input`
on each listener whose entry reported input. Between two datagrams from different listeners there
is no other order than this one: the listeners that are readable in one wake-up are served once
each, in the order of the list.

A pass of the loop (`Flowd.DispatchRun`) is a run whose every step is taken from a statement of
the dispatch loop; the signal handlers may run between any two of them. A pass from the first
listener that reaches the loop head has served exactly the readable listeners, in order
(`Flowd.dispatch_pass_calls_readable`). The proof carries the agreement of `pfd` with the
listeners (`Flowd.PfdOk`) through the pass: nothing in it touches `pfd`, `num_fds` or the
configuration, so each `process_input` gets the listener beside the entry the loop reads.

The same agreement keeps every read of `pfd` inside the array, and the registry invariant lets
`process_input` complete on any datagram: no reachable state of the worker is stuck
(`Flowd.loop_never_stuck`).

## Main results

* `Flowd.dispatch_pass_calls_readable` — in every wake-up, `process_input` is called once on each
  listener whose entry reported input, in the order of `conf->listen_addrs`, and on no other
* `Flowd.loop_never_stuck` — every reachable state that has not exited can take a step of its
  own, and a readable listener takes any datagram
-/

namespace Flowd

/-- The statements of the dispatch loop. -/
def Pc.inDispatch : Pc → Bool
  | .dispatch _ => true
  | _ => false

/-- The steps of one pass of the dispatch loop, each taken from a statement of the loop, with the
signal handlers that run between them. -/
inductive DispatchRun : Loop → List Event → Loop → Prop
  | refl (s : Loop) : DispatchRun s [] s
  | tail {s s₁ s₂ : Loop} {tr : List Event} {a : Action} {e : Event} :
      DispatchRun s tr s₁ → s₁.pc.inDispatch = true → s₁.next a = some (s₂, e) →
      DispatchRun s (tr ++ [e]) s₂

theorem DispatchRun.of_step {s s₁ s₂ : Loop} {tr : List Event} {e : Event}
    (h : DispatchRun s tr s₁) (hd : s₁.pc.inDispatch = true) (hs : Step s₁ e s₂) :
    DispatchRun s (tr ++ [e]) s₂ :=
  let ⟨_, ha⟩ := next_of_step hs
  h.tail hd ha

/-- The descriptor `process_input` is called on. -/
def Event.inputFd? : Event → Option ℕ
  | .processInput fd _ => some fd
  | _ => none

/-- The listeners among the first `j` of `conf->listen_addrs` whose entry of `pfd`, the one
beside it, reported input, in list order. -/
def Loop.readable (s : Loop) (j : ℕ) : List ℕ :=
  ((s.conf.listenFds.zip (s.pfd.drop 1)).take j).filterMap fun p =>
    if p.2.revents then some p.1 else none

@[simp] theorem Loop.readable_handle (s : Loop) (sg : Sig) (j : ℕ) :
    (s.handle sg).readable j = s.readable j := by
  simp [Loop.readable]

/-- Passing listener `k` adds it to the readable ones when its entry reported input. -/
theorem Loop.readable_succ {s : Loop} {k : ℕ} (hk : k < s.conf.listenFds.length) {e : PollFd}
    (he : s.pfd[k + 1]? = some e) :
    s.readable (k + 1) = s.readable k ++ if e.revents then [s.conf.listenFds[k]] else [] := by
  have hz : (s.conf.listenFds.zip (s.pfd.drop 1))[k]? = some (s.conf.listenFds[k], e) :=
    List.getElem?_zip_eq_some.2
      ⟨List.getElem?_eq_getElem hk, by rwa [List.getElem?_drop, Nat.add_comm]⟩
  simp only [Loop.readable, List.take_succ, hz, Option.toList_some, List.filterMap_append,
    List.filterMap_cons, List.filterMap_nil]
  cases e.revents <;> rfl

/-- The statements of the dispatch loop leave `pfd`, `num_fds`, the configuration and the
monitor. -/
theorem Step.dispatch_frame {s s' : Loop} {e : Event} (h : Step s e s')
    (hd : s.pc.inDispatch = true) :
    s'.conf = s.conf ∧ s'.pfd = s.pfd ∧ s'.numFds = s.numFds ∧
      s'.monitorFd = s.monitorFd := by
  cases h with
  | signal => simp
  | notReadable | received | receiveFailed | dispatchDone => exact ⟨rfl, rfl, rfl, rfl⟩
  | _ hpc => simp [hpc, Pc.inDispatch] at hd

/-- What a pass has served: at listener `k`, the readable listeners before `k`; at the loop head,
all of them. -/
structure PassInv (s : Loop) (tr : List Event) : Prop where
  dispatch : ∀ k, s.pc = .dispatch k →
    k ≤ s.conf.listenFds.length ∧ tr.filterMap Event.inputFd? = s.readable k
  loopHead : s.pc = .loopHead → tr.filterMap Event.inputFd? = s.readable s.conf.listenFds.length

theorem PassInv.step {s s' : Loop} {tr : List Event} {e : Event} (hok : PfdOk s)
    (hs : PassInv s tr) (hd : s.pc.inDispatch = true) (h : Step s e s') :
    PassInv s' (tr ++ [e]) := by
  cases h with
  | signal sg _ =>
    exact ⟨fun k hk => by simpa [Event.inputFd?] using hs.dispatch k (by simpa using hk),
      fun hk => by simpa [Event.inputFd?] using hs.loopHead (by simpa using hk)⟩
  | notReadable hpc hk he hr =>
    obtain ⟨-, hin⟩ := hs.dispatch _ hpc
    refine ⟨fun j hj => ?_, fun hj => by cases hj⟩
    cases hj
    refine ⟨hk, ?_⟩
    show _ = s.readable _
    simp [Event.inputFd?, hin, Loop.readable_succ hk he, hr]
  | @received k hpc hk e he hr _ _ _ _ _ _ =>
    obtain ⟨-, hin⟩ := hs.dispatch _ hpc
    have hfd := hok.getElem?_fd (j := k + 1) (by rw [hok.numFds_eq]; omega)
    rw [he, Option.map_some', List.getElem?_cons_succ, List.getElem?_eq_getElem hk] at hfd
    refine ⟨fun j hj => ?_, fun hj => by cases hj⟩
    cases hj
    refine ⟨hk, ?_⟩
    show _ = s.readable _
    simp [Event.inputFd?, hin, Loop.readable_succ hk he, hr, Option.some.inj hfd]
  | receiveFailed => exact ⟨fun _ hj => (by cases hj), fun hj => by cases hj⟩
  | dispatchDone hpc hk =>
    obtain ⟨hle, hin⟩ := hs.dispatch _ hpc
    refine ⟨fun _ hj => (by cases hj), fun _ => ?_⟩
    simpa [Event.inputFd?, show _ = s.conf.listenFds.length from le_antisymm hle hk] using hin
  | _ hpc => simp [hpc, Pc.inDispatch] at hd

/-- **Every wake-up serves the readable listeners, once each, in list order.** In any run, a pass
of the dispatch loop from the first listener to the loop head calls `process_input` on exactly
the listeners whose entry of `pfd` reported input, in the order of `conf->listen_addrs`. -/
theorem dispatch_pass_calls_readable {s s' : Loop} {tr₀ tr : List Event} (hr : Reach s tr₀)
    (h0 : s.pc = .dispatch 0) (h : DispatchRun s tr s') (hend : s'.pc = .loopHead) :
    tr.filterMap Event.inputFd? = s.readable s.conf.listenFds.length := by
  have hok : PfdOk s := hr.pfdOk (by rw [h0]; rfl)
  have key : PfdOk s' ∧ s'.conf = s.conf ∧ s'.pfd = s.pfd ∧ PassInv s' tr := by
    clear hend
    induction h with
    | refl =>
      exact ⟨hok, rfl, rfl,
        fun k hk => by rw [h0] at hk; cases hk; exact ⟨Nat.zero_le _, rfl⟩,
        fun hk => by rw [h0] at hk; cases hk⟩
    | tail _ hd ha ih =>
      obtain ⟨hok₁, hc, hp, hinv⟩ := ih
      have hs := step_of_next ha
      obtain ⟨hc', hp', hn', hm'⟩ := hs.dispatch_frame hd
      exact ⟨hok₁.frame hp' hn' (by rw [hc']) hm', hc'.trans hc, hp'.trans hp,
        hinv.step hok₁ hd hs⟩
  obtain ⟨-, hc, hp, hinv⟩ := key
  rw [hinv.loopHead hend]
  simp only [Loop.readable, hc, hp]

/-- A worker with listeners on descriptors `5` and `6`: `poll` reports input on `6` only, and the
pass calls `process_input` on `6` alone. -/
theorem dispatch_pass_calls_readable_second :
    ∃ (s : Loop) (tr₀ tr : List Event), Reach s tr₀ ∧ s.pc = .dispatch 0 ∧
      tr.filterMap Event.inputFd? = [6] := by
  have hr := Reach.of_steps (Steps.first_poll [1] ⟨[5, 6], fun _ => .discard, 0⟩ 3
      (Peers.init 1 fun _ => Peers.freshPeer (.v4 0) ⟨0, 0⟩) [] 7 .complete rfl)
    |>.of_step (.polled rfl [false, false, true] rfl) |>.of_step (.monitorOpen rfl rfl rfl)
  exact ⟨_, _, _, hr, rfl, dispatch_pass_calls_readable hr rfl (DispatchRun.refl _
    |>.of_step (by rfl) (.notReadable (by rfl) (by decide) (by rfl) (by rfl))
    |>.of_step (by rfl) (.received (by rfl) (by decide) (by rfl) (by rfl)
      ⟨⟨0, 0⟩, Calloc.aboveAll, fun _ => 0, .error⟩ [] (by rfl) (by rfl))
    |>.of_step (by rfl) (.dispatchDone (by rfl) (by decide))) rfl⟩

/-! ### No reachable statement is stuck -/

/-- At listener `k` of a reachable state, the loop either moves on or takes any datagram: the
entry it reads exists, and `process_input` completes on every datagram. -/
theorem Reach.dispatch_total {s : Loop} {tr : List Event} {k : ℕ} (h : Reach s tr)
    (hinv : Peers.Inv s.peers) (hpc : s.pc = .dispatch k) :
    (s.next .step).isSome ∨ ∀ input writes, (s.next (.received input writes)).isSome := by
  have hok := h.pfdOk (by rw [hpc]; rfl)
  by_cases hk : k < s.conf.listenFds.length
  · obtain ⟨e, he⟩ : ∃ e, s.pfd[k + 1]? = some e :=
      ⟨_, List.getElem?_eq_getElem (by rw [hok.length_pfd, hok.numFds_eq]; omega)⟩
    cases hr : e.revents
    · exact .inl (by simp [Loop.next, Loop.advance, hpc, hk, he, hr])
    · refine .inr fun input writes => ?_
      obtain ⟨s₁, hp, -⟩ := hinv.processInput input.calloc input.now input.time input.recv
      simp [Loop.next, Loop.advance, Loop.receive, hpc, hk, he, hr, hp]
  · exact .inl (by simp [Loop.next, Loop.advance, hpc, hk])

/-- Every transition keeps the registry invariant: `process_input` keeps it, `dump_peers` only
splays the tree, and nothing else touches the table. -/
theorem Step.peersInv {s s' : Loop} {e : Event} (h : Step s e s') (hinv : Peers.Inv s.peers) :
    Peers.Inv s'.peers := by
  cases h with
  | signal sg _ => cases sg <;> exact hinv
  | dumpPeers _ => exact hinv.dumpPeers
  | received _ _ _ _ input _ hp _ | receiveFailed _ _ _ _ input _ hp _ =>
    obtain ⟨s₁, hp₁, hinv₁, -⟩ := hinv.processInput input.calloc input.now input.time input.recv
    obtain ⟨rfl, -⟩ := Prod.mk.inj (Option.some.inj (hp₁.symm.trans hp))
    exact hinv₁
  | _ => exact hinv

/-- A run from a valid peer table keeps it valid. -/
theorem Steps.peersInv {s s' : Loop} {tr : List Event} (h : Steps s tr s')
    (hinv : Peers.Inv s.peers) : Peers.Inv s'.peers := by
  induction h with
  | refl => exact hinv
  | tail _ ha ih => exact (step_of_next ha).peersInv ih

/-- **No reachable state is stuck.** From a valid peer table, every reachable state that has not
exited can take a step of its own, not only a signal handler: the reads of `pfd[0]` and
`pfd[i]` stay inside the array, and in the dispatch loop the worker either moves past a listener
or takes any datagram the listener holds. -/
theorem loop_never_stuck {s : Loop} {tr : List Event} (h : Reach s tr) (hinv : Peers.Inv s.peers)
    (hx : s.pc ≠ .exited) :
    (∃ a, (∀ sg, a ≠ .signal sg) ∧ (s.next a).isSome) ∧
      ∀ k, s.pc = .dispatch k →
        (s.next .step).isSome ∨ ∀ input writes, (s.next (.received input writes)).isSome := by
  refine ⟨?_, fun k hpc => h.dispatch_total hinv hpc⟩
  cases hpc : s.pc with
  | exited => exact absurd hpc hx
  | reconfigure =>
    exact ⟨.reconfigured s.conf, fun _ h => (by cases h), by simp [Loop.next, Loop.advance, hpc]⟩
  | startLog =>
    refine ⟨.opened 0 .complete, fun _ h => (by cases h), ?_⟩
    simp only [Loop.next, Loop.advance, hpc, if_true]
    split <;> rfl
  | poll => exact ⟨.interrupted, fun _ h => (by cases h), by simp [Loop.next, Loop.advance, hpc]⟩
  | monitorTest =>
    have hok := h.pfdOk (by rw [hpc]; rfl)
    obtain ⟨e, he⟩ : ∃ e, s.pfd[0]? = some e :=
      ⟨_, List.getElem?_eq_getElem (by rw [hok.length_pfd]; omega)⟩
    exact ⟨.step, fun _ h => (by cases h), by simp [Loop.next, Loop.advance, hpc, he]⟩
  | dispatch k =>
    rcases h.dispatch_total hinv hpc with hs | hs
    · exact ⟨.step, fun _ h => (by cases h), hs⟩
    · exact ⟨.received ⟨⟨0, 0⟩, Calloc.aboveAll, fun _ => 0, .error⟩ [], fun _ h => (by cases h),
        hs _ _⟩
  | _ =>
    refine ⟨.step, fun _ h => (by cases h), ?_⟩
    simp only [Loop.next, Loop.advance, hpc]
    first | rfl | split_ifs <;> rfl

theorem loop_never_stuck_first_poll :
    ∃ s tr, Reach s tr ∧ s.pc = .poll ∧ ∃ a, (∀ sg, a ≠ .signal sg) ∧ (s.next a).isSome := by
  have hs := Steps.first_poll [1] ⟨[5], fun _ => .discard, 0⟩ 3
    (Peers.init 1 fun _ => Peers.freshPeer (.v4 0) ⟨0, 0⟩) [] 7 .complete rfl
  exact ⟨_, _, Reach.of_steps hs, rfl, (loop_never_stuck (Reach.of_steps hs)
    (hs.peersInv (Peers.inv_init (by decide) _)) fun h => Pc.noConfusion h).1⟩

end Flowd
