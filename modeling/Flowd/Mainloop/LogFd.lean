import Flowd.Mainloop.Control

/-!
# The log descriptor of each `process_input`

`log_fd` is set by `start_log`, closed and reset to `-1` by the reopen block at the head of the
loop, and handed to every `process_input` call of the dispatch loop. Every such call gets the
descriptor of the latest `start_log`, and it has not been closed since (`Flowd.LatestLog`).

`sighand_reconf` sets `reopen_flag` with `reconf_flag`, so that a reconfiguration implies a
reopen. But the loop tests `reopen_flag` before `reconf_flag`. A `SIGHUP` delivered between the
two tests runs `client_reconfigure` at once, leaves the log open, and the datagrams of that
iteration are logged through the descriptor opened before the reconfiguration. The reopen comes
one iteration later.

## Main results

* `Flowd.processInput_uses_latest_log` — every `process_input` is called with the descriptor
  returned by the latest `start_log`, not closed since
* `Flowd.processInput_log_predates_reconfigure` — a run in which that `start_log` came before a
  completed `client_reconfigure`
-/

namespace Flowd

/-- `fd` was returned by the latest `start_log` of `tr` and has not been closed since. -/
def LatestLog (fd : ℤ) (tr : List Event) : Prop :=
  ∃ (pre post : List Event) (n : ℕ), tr = pre ++ .startLogReturned n :: post ∧ fd = n ∧
    .closeLog fd ∉ post ∧
    ∀ m, .startLogReturned m ∉ post

theorem LatestLog.snoc {fd : ℤ} {tr : List Event} {e : Event} (h : LatestLog fd tr)
    (hc : e ≠ .closeLog fd) (hs : ∀ m, e ≠ .startLogReturned m) : LatestLog fd (tr ++ [e]) :=
  let ⟨pre, post, n, htr, hn, hpc, hps⟩ := h
  ⟨pre, post ++ [e], n, by simp [htr], hn, by simp [hpc, hc.symm], by simp [hps, (hs _).symm]⟩

/-- Every `process_input` of `tr` was called with the latest log of the trace before it. -/
def InputsLatest (tr : List Event) : Prop :=
  ∀ pre fd logFd post, tr = pre ++ .processInput fd logFd :: post → LatestLog logFd pre

theorem InputsLatest.snoc {tr : List Event} {e : Event} (h : InputsLatest tr)
    (he : ∀ fd logFd, e = .processInput fd logFd → LatestLog logFd tr) :
    InputsLatest (tr ++ [e]) := fun pre fd logFd post htr => by
  rcases split_snoc htr with ⟨rfl, rfl, -⟩ | ⟨post, -, htr⟩
  · exact he fd logFd rfl
  · exact h pre fd logFd post htr

/-- The statements from the test of `log_fd` to the end of the dispatch loop. -/
def Pc.logOpen : Pc → Bool
  | .infoTest | .infoClearFlag | .logRules | .dumpPeers | .poll | .monitorTest | .dispatch _ => true
  | _ => false

/-- Only the dispatch loop calls `process_input`, with the current `log_fd`. -/
theorem Step.processInput_logFd {s s' : Loop} {fd : ℕ} {logFd : ℤ}
    (h : Step s (.processInput fd logFd) s') : s.pc.logOpen = true ∧ logFd = s.logFd := by
  cases h with
  | received hpc _ _ _ _ _ _ _ | receiveFailed hpc _ _ _ _ _ _ _ => exact ⟨by rw [hpc]; rfl, rfl⟩

/-- What the loop keeps of its log descriptor: outside the reopen block it is the latest one and
open; from the test of `log_fd` to the end of the dispatch loop it is not `-1`. -/
structure LogFdInv (s : Loop) (tr : List Event) : Prop where
  latest : s.logFd ≠ -1 → s.pc ≠ .reopenResetFd → LatestLog s.logFd tr
  isOpen : s.pc.logOpen = true → s.logFd ≠ -1
  inputs : InputsLatest tr

theorem LogFdInv.step {s s' : Loop} {tr : List Event} {e : Event} (h : Step s e s')
    (hs : LogFdInv s tr) : LogFdInv s' (tr ++ [e]) := by
  have hin : ∀ fd logFd, e = .processInput fd logFd → LatestLog logFd tr := by
    rintro fd logFd rfl
    obtain ⟨hpc, rfl⟩ := h.processInput_logFd
    exact hs.latest (hs.isOpen hpc) fun h => by rw [h] at hpc; cases hpc
  refine ⟨?_, ?_, hs.inputs.snoc hin⟩
  · cases h with
    | signal sg _ =>
      rw [Loop.handle_logFd, Loop.handle_pc]
      exact fun h₁ h₂ => (hs.latest h₁ h₂).snoc (by simp) (by simp)
    | reopenClose _ => exact fun _ h => absurd rfl h
    | reopenResetFd _ => exact fun h => absurd rfl h
    | opened _ fd _ _ => exact fun _ _ => ⟨tr, [], fd, rfl, rfl, by simp, by simp⟩
    | _ hpc => exact fun h₁ _ => (hs.latest h₁ (by simp [hpc])).snoc (by simp) (by simp)
  · cases h with
    | signal sg _ => simpa using hs.isOpen
    | noStartLog _ hl => exact fun _ => hl
    | opened _ fd _ _ => exact fun _ => by simp only; omega
    | reopenResetFd _ => exact fun h => nomatch h
    | _ hpc => exact fun h => hs.isOpen (by simp [hpc, Pc.logOpen] at h ⊢)

theorem Reach.logFdInv {s : Loop} {tr : List Event} (h : Reach s tr) : LogFdInv s tr :=
  h.invariant (fun _ _ _ _ _ => ⟨fun h => absurd rfl h, (fun h => nomatch h), fun pre _ _ _ h => by
    cases pre <;> cases h⟩) fun _ hs hstep => hs.step hstep

/-- Every call of `process_input` so far was made with the descriptor returned by the latest
`start_log` before it, which had not been closed since. -/
theorem processInput_uses_latest_log {s : Loop} {tr : List Event} (h : Reach s tr)
    (pre : List Event) (fd : ℕ) (logFd : ℤ) (post : List Event)
    (htr : tr = pre ++ .processInput fd logFd :: post) :
    ∃ (p q : List Event) (n : ℕ), pre = p ++ .startLogReturned n :: q ∧ logFd = n ∧
      .closeLog logFd ∉ q ∧ ∀ m, .startLogReturned m ∉ q :=
  h.logFdInv.inputs pre fd logFd post htr

/-- A worker with one listener: the first iteration opens the log with descriptor `7`; in the
second, a `SIGHUP` lands between the reopen test and the reconfiguration test, and the datagram
that `poll` then reports on the listener is handed to `process_input` with descriptor `7`. -/
theorem Reach.sighup_before_reconfTest :
    ∃ s, Reach s ([.tau, .tau, .tau, .tau, .beginStartLog, .startLogReturned 7, .tau, .tau, .tau,
      .tau, .signal .hup, .beginReconfigure, .reconfigureDone, .tau, .reconfCleared, .tau, .tau,
      .tau, .tau] ++ [.processInput 5 7]) := by
  have hr := Reach.of_steps (Steps.first_poll [1] ⟨[5], fun _ => .discard, 0⟩ 3
      (Peers.init 1 fun _ => Peers.freshPeer (.v4 0) ⟨0, 0⟩) [] 7 .complete rfl)
    |>.of_step (.interrupted rfl) |>.of_step (.loopHead rfl rfl)
    |>.of_step (.noReopen rfl fun h => Bool.noConfusion h.1) |>.of_step (.signal .hup fun h => Pc.noConfusion h)
    |>.of_step (.reconfigure rfl rfl) |>.of_step (.reconfigured rfl ⟨[5], fun _ => .discard, 0⟩)
    |>.of_step (.initPfd rfl) |>.of_step (.reconfClearFlag rfl)
    |>.of_step (.noStartLog rfl (by decide)) |>.of_step (.noInfo rfl rfl)
    |>.of_step (.polled rfl [false, true] rfl) |>.of_step (.monitorOpen rfl rfl rfl)
    |>.of_step (.received rfl (by decide) rfl rfl ⟨⟨0, 0⟩, Calloc.aboveAll, fun _ => 0, .error⟩ []
      rfl rfl)
  exact ⟨_, hr⟩

/-- In the run above, `process_input` gets the latest log, returned by `start_log` seven events
before the end of the first iteration. -/
theorem processInput_uses_latest_log_after_sighup :
    ∃ s pre, Reach s (pre ++ [.processInput 5 7]) ∧ ∃ (p q : List Event) (n : ℕ),
      pre = p ++ .startLogReturned n :: q ∧ (7 : ℤ) = n := by
  obtain ⟨s, hr⟩ := Reach.sighup_before_reconfTest
  obtain ⟨p, q, n, hp, hn, -⟩ := processInput_uses_latest_log hr _ 5 7 [] rfl
  exact ⟨s, _, hr, p, q, n, hp, hn⟩

/-- The run above: the descriptor of that `process_input` was returned by a `start_log` made
before a completed `client_reconfigure`, and no `start_log` came after it. -/
theorem processInput_log_predates_reconfigure :
    ∃ (s : Loop) (tr pre : List Event) (fd : ℕ) (logFd : ℤ) (post : List Event), Reach s tr ∧
      tr = pre ++ .processInput fd logFd :: post ∧
      ∃ (p q : List Event) (n : ℕ), pre = p ++ .startLogReturned n :: q ∧ logFd = n ∧
        .reconfigureDone ∈ q ∧ ∀ m, .startLogReturned m ∉ q := by
  obtain ⟨s, hr⟩ := Reach.sighup_before_reconfTest
  exact ⟨s, _, _, 5, 7, [], hr, rfl, [.tau, .tau, .tau, .tau, .beginStartLog],
    [.tau, .tau, .tau, .tau, .signal .hup, .beginReconfigure, .reconfigureDone, .tau, .reconfCleared,
      .tau, .tau, .tau, .tau], 7, rfl, rfl, by decide, by simp⟩

end Flowd
