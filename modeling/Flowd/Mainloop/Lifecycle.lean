import Flowd.Mainloop

/-!
# The log descriptor over whole runs

`log_fd` holds at most one descriptor of the log. `start_log` is called only when it is `-1`,
and the reopen block closes it before setting it to `-1`. So the worker never opens a second
descriptor while one is open, and never closes one that is not open. `Flowd.logMonitor` reads
this discipline off the events of a trace. It follows the descriptor left open, and fails on a
`start_log` that returns while one is open, or on a `close` of any descriptor but the open one.
Every trace of the worker passes it, and what it holds open is `log_fd`
(`Flowd.logMonitor_accepts_run`).

## Main results

* `Flowd.logMonitor_accepts_run` — every trace opens and closes log descriptors one at a time,
  and the open one is `log_fd`
-/

namespace Flowd

/-! ### One log descriptor at a time -/

/-- One event against the log descriptor open before it: `start_log` may return only while none
is open, and `close` may only be called on the open one. `none` is a breach. -/
def logMonitor (o : Option ℤ) : Event → Option (Option ℤ)
  | .startLogReturned fd => if o = none then some (some fd) else none
  | .closeLog fd => if o = some fd then some none else none
  | _ => some o

theorem foldlM_logMonitor_snoc (tr : List Event) (e : Event) :
    (tr ++ [e]).foldlM logMonitor none = (tr.foldlM logMonitor none).bind (logMonitor · e) := by
  simp [List.foldlM_append]

/-- The descriptor the monitor should hold open: `log_fd`, unless it is `-1` or the reopen block
has just closed it. -/
def Loop.openLog (s : Loop) : Option ℤ :=
  if s.logFd = -1 ∨ s.pc = .reopenResetFd then none else some s.logFd

/-- The monitor holds `log_fd` open; around the two calls that change it, `log_fd` is open before
the `close` and `-1` inside `start_log`. -/
structure LogMonitorInv (s : Loop) (tr : List Event) : Prop where
  monitor : tr.foldlM logMonitor none = some s.openLog
  closing : s.pc = .reopenClose → s.logFd ≠ -1
  opening : s.pc = .startLog → s.logFd = -1

theorem LogMonitorInv.step {s s' : Loop} {tr : List Event} {e : Event} (h : Step s e s')
    (hs : LogMonitorInv s tr) : LogMonitorInv s' (tr ++ [e]) := by
  have hm := foldlM_logMonitor_snoc tr e
  rw [hs.monitor, Option.some_bind] at hm
  cases h with
  | signal sg _ =>
    exact ⟨by simp [hm, logMonitor, Loop.openLog], by simpa using hs.closing,
      by simpa using hs.opening⟩
  | reopen hpc hr =>
    exact ⟨by simp [hm, logMonitor, Loop.openLog, hpc], fun _ => hr.2, fun h => by cases h⟩
  | reopenClose hpc =>
    exact ⟨by simp [hm, logMonitor, Loop.openLog, hpc, hs.closing hpc], fun h => (by cases h),
      fun h => by cases h⟩
  | startLog hpc hl =>
    exact ⟨by simp [hm, logMonitor, Loop.openLog, hpc], fun h => (by cases h), fun _ => hl⟩
  | opened hpc fd w _ =>
    have hfd : (fd : ℤ) ≠ -1 := by omega
    exact ⟨by simp [hm, logMonitor, Loop.openLog, hpc, hs.opening hpc, hfd],
      fun h => (by cases h), fun h => by cases h⟩
  | _ hpc =>
    exact ⟨by simp [hm, logMonitor, Loop.openLog, hpc], fun h => (by cases h),
      fun h => by cases h⟩

theorem Reach.logMonitorInv {s : Loop} {tr : List Event} (h : Reach s tr) : LogMonitorInv s tr :=
  h.invariant (fun _ _ _ _ _ => ⟨rfl, fun h => (by cases h), fun h => by cases h⟩)
    fun _ hs hstep => hs.step hstep

/-- **The worker holds one log descriptor at a time.** The events of every run pass
`logMonitor`: no `start_log` returns while a descriptor is open, and every `close` closes the open
one. The descriptor left open is `log_fd`, unless it is `-1` or has just been closed. -/
theorem logMonitor_accepts_run {s : Loop} {tr : List Event} (h : Reach s tr) :
    tr.foldlM logMonitor none = some s.openLog :=
  h.logMonitorInv.monitor

/-- A `SIGUSR1` while the worker waits in its first `poll`: the reopen block closes descriptor
`7`, and `start_log` opens `8`. -/
theorem logMonitor_accepts_reopen :
    [.tau, .tau, .tau, .tau, .beginStartLog, .startLogReturned 7, .tau, .signal .usr1, .tau, .tau,
      .tau, .closeLog 7, .tau, .tau, .tau, .beginStartLog, .startLogReturned 8].foldlM logMonitor
      none = some (some 8) :=
  logMonitor_accepts_run (Reach.of_steps (Steps.first_poll [1] ⟨[5], fun _ => .discard, 0⟩ 3
      (Peers.init 1 fun _ => Peers.freshPeer (.v4 0) ⟨0, 0⟩) [] 7 .complete rfl)
    |>.of_step (.signal .usr1 fun h => Pc.noConfusion h)
    |>.of_step (.interrupted rfl) |>.of_step (.loopHead rfl rfl)
    |>.of_step (.reopen rfl ⟨rfl, by decide⟩) |>.of_step (.reopenClose rfl)
    |>.of_step (.reopenResetFd rfl) |>.of_step (.reopenClearFlag rfl)
    |>.of_step (.noReconfigure rfl rfl) |>.of_step (.startLog rfl rfl)
    |>.of_step (.opened rfl 8 .complete rfl))

end Flowd
