import Flowd.Mainloop

/-!
# The poll set follows the configuration

`init_pfd` builds `pfd` from `conf->listen_addrs`: the monitor descriptor first, then one entry
per listener in list order, then the zeroed spare entry of its `calloc(num_fds + 1)`.
`flowd_mainloop` calls it before the loop and again after every `client_reconfigure`, which may
replace the listener list with one of any length. Between the return of `client_reconfigure` and
that second call the configuration is new and `pfd` is not. Everywhere else the two agree
(`Flowd.PfdOk`).

The dispatch loop walks `conf->listen_addrs` and reads `pfd[i]` beside it, with no bound of its
own on `i`. The agreement keeps those reads inside the array and on the right descriptor.

## Main results

* `Flowd.Reach.pfdOk` — `pfd` agrees with the configuration at every statement except the start
  and `init_pfd`
* `Flowd.pollSet_matches_listeners` — at `poll` and in the dispatch loop, the entries the loop
  reads are those of the monitor and the listeners, below `num_fds`, and `process_input` is
  called only on a listener whose entry reported input
-/

namespace Flowd

/-- `pfd` and `num_fds` describe the monitor and the listeners of `conf`, in order, with the
spare entry of `init_pfd`'s allocation. -/
structure PfdOk (s : Loop) : Prop where
  numFds_eq : s.numFds = 1 + s.conf.listenFds.length
  length_pfd : s.pfd.length = s.numFds + 1
  fds : (s.pfd.map PollFd.fd).take s.numFds = s.monitorFd :: s.conf.listenFds

/-- The statements at which `pfd` describes the current configuration: all but the start and
`init_pfd` after a reconfiguration. -/
def Pc.pfdCurrent : Pc → Bool
  | .start | .initPfd => false
  | _ => true

/-- What `init_pfd` builds agrees with the configuration it read. -/
theorem PfdOk.of_initPfd {s : Loop} (hp : s.pfd = (initPfd s.conf s.monitorFd).1)
    (hn : s.numFds = (initPfd s.conf s.monitorFd).2) : PfdOk s where
  numFds_eq := hn
  length_pfd := by simp [hp, hn, initPfd]; omega
  fds := by
    rw [hp, hn]
    simp [initPfd, Nat.add_comm 1, List.take_append_of_le_length, Function.comp_def]

/-- A statement that leaves the descriptors, `num_fds`, the listeners and the monitor keeps the
agreement. -/
theorem PfdOk.frame {s s' : Loop} (h : PfdOk s) (hp : s'.pfd = s.pfd) (hn : s'.numFds = s.numFds)
    (hc : s'.conf.listenFds = s.conf.listenFds) (hm : s'.monitorFd = s.monitorFd) : PfdOk s' :=
  ⟨by rw [hn, hc, h.numFds_eq], by rw [hp, hn, h.length_pfd], by rw [hp, hn, hc, hm, h.fds]⟩

@[simp] theorem length_setRevents (pfd : List PollFd) (numFds : ℕ) (revents : List Bool) :
    (setRevents pfd numFds revents).length = pfd.length := List.length_mapIdx

/-- `poll` writes `revents` and leaves the descriptors. -/
@[simp] theorem map_fd_setRevents (pfd : List PollFd) (numFds : ℕ) (revents : List Bool) :
    (setRevents pfd numFds revents).map PollFd.fd = pfd.map PollFd.fd := by
  refine List.ext_getElem (by simp) fun j _ _ => ?_
  simp only [setRevents, List.getElem_map, List.getElem_mapIdx]
  split_ifs <;> rfl

theorem PfdOk.step {s s' : Loop} {e : Event} (h : Step s e s') (hs : s.pc.pfdCurrent → PfdOk s) :
    s'.pc.pfdCurrent → PfdOk s' := by
  cases h with
  | signal sg _ =>
    exact fun h => (hs (by simpa using h)).frame (by simp) (by simp) (by simp) (by simp)
  | start _ | initPfd _ => exact fun _ => .of_initPfd rfl rfl
  | reconfigured _ conf => exact fun h => nomatch h
  | polled hpc revents _ | polledNone hpc revents _ =>
    have ok := hs (by rw [hpc]; rfl)
    exact fun _ => ⟨ok.numFds_eq, by simp [ok.length_pfd], by simp [ok.fds]⟩
  | _ hpc => exact fun _ => (hs (by rw [hpc]; rfl)).frame rfl rfl rfl rfl

theorem Reach.pfdOk {s : Loop} {tr : List Event} (h : Reach s tr) : s.pc.pfdCurrent → PfdOk s :=
  h.invariant (fun _ _ _ _ _ h => nomatch h) fun _ hs hstep => PfdOk.step hstep hs

/-- The `j`-th entry below `num_fds` holds the `j`-th descriptor of the poll set. -/
theorem PfdOk.getElem?_fd {s : Loop} (h : PfdOk s) {j : ℕ} (hj : j < s.numFds) :
    (s.pfd[j]?).map PollFd.fd = (s.monitorFd :: s.conf.listenFds)[j]? := by
  rw [← h.fds, List.getElem?_take, if_pos hj, List.getElem?_map]

/-- What the dispatch loop reads at listener `k`: a transition out of `dispatch k` that calls
`process_input` does so on the `k`-th listener, whose entry reported input. -/
theorem Step.processInput_fd {s s' : Loop} {fd : ℕ} {logFd : ℤ}
    (h : Step s (.processInput fd logFd) s') (hs : PfdOk s) :
    ∃ k, s.pc = .dispatch k ∧ k + 1 < s.numFds ∧ s.conf.listenFds[k]? = some fd ∧
      s.pfd[k + 1]? = some ⟨fd, true⟩ := by
  cases h with
  | @received k hpc hk e he hr _ _ _ _ _ _ | @receiveFailed k hpc hk e he hr _ _ _ _ _ _ =>
    have hfd := hs.getElem?_fd (j := k + 1) (by rw [hs.numFds_eq]; omega)
    rw [he, Option.map_some'] at hfd
    exact ⟨k, hpc, by rw [hs.numFds_eq]; omega, by simpa using hfd.symm, by rw [he, ← hr]⟩

/-- At every call of `poll` and throughout the dispatch loop after it, `num_fds` counts the
monitor and the listeners, `pfd` has at least `num_fds` entries, the first is the monitor's and
the one after it the `k`-th listener's; and `process_input` is only called on the descriptor of
a listener whose entry reported input. -/
theorem pollSet_matches_listeners {s : Loop} {tr : List Event} (h : Reach s tr)
    (hpc : s.pc = .poll ∨ s.pc = .monitorTest ∨ ∃ k, s.pc = .dispatch k) :
    s.numFds = 1 + s.conf.listenFds.length ∧ s.numFds ≤ s.pfd.length ∧
      (s.pfd[0]?).map PollFd.fd = some s.monitorFd ∧
      (∀ k < s.conf.listenFds.length, (s.pfd[k + 1]?).map PollFd.fd = s.conf.listenFds[k]?) ∧
      ∀ a s' fd logFd, s.next a = some (s', .processInput fd logFd) →
        ∃ k, s.pc = .dispatch k ∧ k + 1 < s.numFds ∧ s.conf.listenFds[k]? = some fd ∧
          s.pfd[k + 1]? = some ⟨fd, true⟩ := by
  have hs : PfdOk s := h.pfdOk (by rcases hpc with hp | hp | ⟨k, hp⟩ <;> rw [hp] <;> rfl)
  refine ⟨hs.numFds_eq, by rw [hs.length_pfd]; omega,
    by simpa using hs.getElem?_fd (j := 0) (by rw [hs.numFds_eq]; omega),
    fun k hk => by simpa using hs.getElem?_fd (j := k + 1) (by rw [hs.numFds_eq]; omega),
    fun _ _ _ _ ha => (step_of_next ha).processInput_fd hs⟩

theorem pollSet_matches_listeners_first_poll :
    ∃ s tr, Reach s tr ∧ s.pc = .poll ∧ s.numFds = 1 + s.conf.listenFds.length ∧
      (s.pfd[1]?).map PollFd.fd = some 5 := by
  have hr := Reach.of_steps <| Steps.first_poll [1] ⟨[5], fun _ => .discard, 0⟩ 3
    (Peers.init 1 fun _ => Peers.freshPeer (.v4 0) ⟨0, 0⟩) [] 7 .complete rfl
  obtain ⟨hn, -, -, hk, -⟩ := pollSet_matches_listeners hr (.inl rfl)
  exact ⟨_, _, hr, rfl, hn, hk 0 (by decide)⟩

end Flowd
