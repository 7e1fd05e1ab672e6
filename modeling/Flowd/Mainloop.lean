import Flowd.History.Run
import Flowd.Log

/-!
# `flowd_mainloop`

The worker's loop: at the head of each iteration it serves the control flags the signal handlers
set, then waits in `poll` on the monitor descriptor and the listening sockets, and hands each
readable socket to `process_input`. The model is a step function on the loop's state, one step
per statement, with the signal handlers as steps of their own that may come between any two:
`Loop.next` takes what the environment does next (`Flowd.Action`) and returns the new state and
what happened (`Flowd.Event`).

## Granularity

A statement that touches the flags, the log descriptor or `pfd` is a step of its own. The three
calls a signal can interrupt to some effect are split at their entry and their return:
`client_reconfigure`, `start_log` and `dump_peers`. `process_input` and `init_pfd` read no flag,
so each is one step; a handler that runs inside one has the same effect as one that runs just
after it.

## What the model leaves out

`logit` and the filter rule formatting are not modelled. Failures that end the process through
`logerr` or `logerrx` (a failed `client_reconfigure`, `client_open_log` or `calloc`, a fatal
`poll` error) are not steps: a run may end anywhere. The failures that matter to the log file,
a short write by `store_put_header` or `store_put_flow`, are modelled, and end the process.

The log file outlives the process; `Flowd.Daemon` restarts the worker against it.
-/

namespace Flowd

/-- The signals flowd installs handlers for. -/
inductive Sig
  /-- `SIGINT`: `sighand_exit`. -/
  | int
  /-- `SIGTERM`: `sighand_exit`. -/
  | term
  /-- `SIGHUP`: `sighand_reconf`. -/
  | hup
  /-- `SIGUSR1`: `sighand_reopen`. -/
  | usr1
  /-- `SIGUSR2`, and `SIGINFO` where it exists: `sighand_info`. -/
  | usr2
  deriving DecidableEq, Repr

/-- The number `sighand_exit` stores in `exit_flag`. -/
def Sig.signo : Sig → ℕ
  | .int => 2
  | .term => 15
  | _ => 0

/-- A `struct pollfd`: the descriptor and whether `poll` set `revents`. -/
structure PollFd where
  fd : ℕ
  revents : Bool
  deriving DecidableEq, Repr

/-- The statements of `flowd_mainloop` a signal handler can run between. -/
inductive Pc
  /-- Before the first `init_pfd`. -/
  | start
  /-- `for (; exit_flag == 0;)`. -/
  | loopHead
  /-- `if (reopen_flag && log_fd != -1)`. -/
  | reopenTest
  /-- `close(log_fd)`. -/
  | reopenClose
  /-- `log_fd = -1`. -/
  | reopenResetFd
  /-- `reopen_flag = 0`. -/
  | reopenClearFlag
  /-- `if (reconf_flag)`. -/
  | reconfTest
  /-- Inside `client_reconfigure`. -/
  | reconfigure
  /-- `init_pfd` after a reconfiguration. -/
  | initPfd
  /-- `reconf_flag = 0`. -/
  | reconfClearFlag
  /-- `if (log_fd == -1)`. -/
  | startTest
  /-- Inside `start_log`. -/
  | startLog
  /-- `if (info_flag)`. -/
  | infoTest
  /-- `info_flag = 0`. -/
  | infoClearFlag
  /-- The filter rules are logged and `dump_peers` is called. -/
  | logRules
  /-- Inside `dump_peers`. -/
  | dumpPeers
  /-- `poll(pfd, num_fds, INFTIM)`. -/
  | poll
  /-- `if (pfd[0].revents != 0) break`. -/
  | monitorTest
  /-- The dispatch loop at the listener with index `k`, reading `pfd[k + 1]`. -/
  | dispatch (k : ℕ)
  /-- The process has ended. -/
  | exited
  deriving DecidableEq, Repr

/-- The state of the worker. `header` is the log header of the build, `file` the contents of
the log file. -/
structure Loop where
  pc : Pc
  exitFlag : ℕ
  reconfFlag : Bool
  reopenFlag : Bool
  infoFlag : Bool
  logFd : ℤ
  conf : FlowdConfig
  pfd : List PollFd
  numFds : ℕ
  monitorFd : ℕ
  peers : Peers
  header : List UInt8
  file : List UInt8

/-- What the environment does next. -/
inductive Action
  /-- A signal is delivered and its handler runs. -/
  | signal (sg : Sig)
  /-- The loop runs a statement that takes nothing from the environment. -/
  | step
  /-- `client_reconfigure` returns with the refreshed configuration. -/
  | reconfigured (conf : FlowdConfig)
  /-- In `start_log`, `client_open_log` returns `fd`; `w` is the fate of the header write. -/
  | opened (fd : ℕ) (w : Write)
  /-- `poll` returns, with `revents` set on the entries given. -/
  | polled (revents : List Bool)
  /-- `poll` returns `0`, or fails with `EINTR`. -/
  | interrupted
  /-- `process_input` on a readable listener: what `recvfrom` and the clocks give it, and the
  fates of its `store_put_flow` calls in order (complete when the list runs out). -/
  | received (input : Input) (writes : List Write)

/-- What a step does that a property of runs may speak of. -/
inductive Event
  | tau
  | signal (sg : Sig)
  | closeLog (fd : ℤ)
  | beginReconfigure
  | reconfigureDone
  | reconfCleared
  | beginStartLog
  | startLogReturned (fd : ℕ)
  | beginDump
  | processInput (fd : ℕ) (logFd : ℤ)
  deriving DecidableEq, Repr

/-- The worker as `main` starts it. -/
def Loop.init (header : List UInt8) (conf : FlowdConfig) (monitorFd : ℕ) (peers : Peers)
    (file : List UInt8) : Loop :=
  ⟨.start, 0, false, false, false, -1, conf, [], 0, monitorFd, peers, header, file⟩

/-- `init_pfd`: the monitor, the listeners of `conf` in order, and the zeroed spare entry of the
`calloc(num_fds + 1)`; and `num_fds`. -/
def initPfd (conf : FlowdConfig) (mfd : ℕ) : List PollFd × ℕ :=
  (⟨mfd, false⟩ :: conf.listenFds.map (⟨·, false⟩) ++ [⟨0, false⟩], 1 + conf.listenFds.length)

/-- What `poll` writes: `revents` of the first `num_fds` entries. -/
def setRevents (pfd : List PollFd) (numFds : ℕ) (revents : List Bool) : List PollFd :=
  pfd.mapIdx fun j e => if j < numFds then { e with revents := revents.getD j false } else e

/-- The `store_put_flow` calls of `process_flow` for the flows `filter_flow` accepts, in order,
until one fails. -/
def putFlows (file : List UInt8) (mask : UInt32) :
    List StoreFlowComplete → List Write → List UInt8 × Bool
  | [], _ => (file, true)
  | flow :: flows, writes =>
    let written := putFlow file flow mask (writes.headD .complete)
    if written.2 then putFlows written.1 mask flows writes.tail else (written.1, false)

/-- When every `store_put_flow` succeeds, each appended exactly its record. -/
theorem putFlows_of_ok {file : List UInt8} {mask : UInt32} {flows : List StoreFlowComplete}
    {writes : List Write} (h : (putFlows file mask flows writes).2 = true) :
    (putFlows file mask flows writes).1 = file ++ (flows.map (encodeFlow · mask)).flatten := by
  induction flows generalizing file writes with
  | nil => simp [putFlows]
  | cons flow flows ih =>
    simp only [putFlows] at h ⊢
    split_ifs at h ⊢ with hw
    rw [ih h, putFlow, Write.apply_of_ok hw]
    simp

/-- When one fails, the calls before it each appended their record, and the failed one a proper
prefix of its own. -/
theorem putFlows_of_fail {file : List UInt8} {mask : UInt32} {flows : List StoreFlowComplete}
    {writes : List Write} (h : (putFlows file mask flows writes).2 = false) :
    ∃ k flow, flows[k]? = some flow ∧ ∃ torn, torn <+: encodeFlow flow mask ∧
      torn.length < (encodeFlow flow mask).length ∧
      (putFlows file mask flows writes).1 =
        file ++ ((flows.take k).map (encodeFlow · mask)).flatten ++ torn := by
  induction flows generalizing file writes with
  | nil => cases h
  | cons flow flows ih =>
    simp only [putFlows] at h ⊢
    split_ifs at h ⊢ with hw
    · obtain ⟨k, flow', hk, torn, hp, hl, he⟩ := ih h
      refine ⟨k + 1, flow', by simpa using hk, torn, hp, hl, ?_⟩
      rw [he, putFlow, Write.apply_of_ok hw]
      simp
    · exact ⟨0, flow, by simp, _, Write.apply_prefix _ _,
        Write.length_apply_of_fail (by simpa using hw), by simp [putFlow]⟩

namespace Loop

/-- The signal handlers. -/
def handle (s : Loop) : Sig → Loop
  | .hup => { s with reconfFlag := true, reopenFlag := true }
  | .usr1 => { s with reopenFlag := true }
  | .usr2 => { s with infoFlag := true }
  | sg => { s with exitFlag := sg.signo }

/-- `process_input` on the socket `fd`, and `process_flow` on each record it hands on. -/
def receive (s : Loop) (k : ℕ) (fd : ℕ) (input : Input) (writes : List Write) :
    Option (Loop × Event) := do
  let (peers, flows) ← processInput s.peers input.calloc input.now input.time input.recv
  let written := putFlows s.file s.conf.storeMask (flows.filterMap (processFlow s.conf)) writes
  some ({ s with
          pc := if written.2 then .dispatch (k + 1) else .exited
          peers := peers
          file := written.1 }, .processInput fd s.logFd)

/-- One statement of the loop. -/
def advance (s : Loop) : Action → Option (Loop × Event)
  | .step =>
    match s.pc with
    | .start =>
      some ({ s with
              pc := .loopHead
              pfd := (initPfd s.conf s.monitorFd).1
              numFds := (initPfd s.conf s.monitorFd).2 }, .tau)
    | .loopHead => some ({ s with pc := if s.exitFlag = 0 then .reopenTest else .exited }, .tau)
    | .reopenTest =>
      some ({ s with pc := if s.reopenFlag ∧ s.logFd ≠ -1 then .reopenClose else .reconfTest }, .tau)
    | .reopenClose => some ({ s with pc := .reopenResetFd }, .closeLog s.logFd)
    | .reopenResetFd => some ({ s with pc := .reopenClearFlag, logFd := -1 }, .tau)
    | .reopenClearFlag => some ({ s with pc := .reconfTest, reopenFlag := false }, .tau)
    | .reconfTest =>
      if s.reconfFlag then some ({ s with pc := .reconfigure }, .beginReconfigure)
      else some ({ s with pc := .startTest }, .tau)
    | .initPfd =>
      some ({ s with
              pc := .reconfClearFlag
              pfd := (initPfd s.conf s.monitorFd).1
              numFds := (initPfd s.conf s.monitorFd).2 }, .tau)
    | .reconfClearFlag => some ({ s with pc := .startTest, reconfFlag := false }, .reconfCleared)
    | .startTest =>
      if s.logFd = -1 then some ({ s with pc := .startLog }, .beginStartLog)
      else some ({ s with pc := .infoTest }, .tau)
    | .infoTest => some ({ s with pc := if s.infoFlag then .infoClearFlag else .poll }, .tau)
    | .infoClearFlag => some ({ s with pc := .logRules, infoFlag := false }, .tau)
    | .logRules => some ({ s with pc := .dumpPeers }, .beginDump)
    | .dumpPeers => some ({ s with pc := .poll, peers := s.peers.dumpPeers.1 }, .tau)
    | .monitorTest =>
      (s.pfd[0]?).map fun e => ({ s with pc := if e.revents then .exited else .dispatch 0 }, .tau)
    | .dispatch k =>
      if k < s.conf.listenFds.length then
        match s.pfd[k + 1]? with
        | some e => if e.revents then none else some ({ s with pc := .dispatch (k + 1) }, .tau)
        | none => none
      else some ({ s with pc := .loopHead }, .tau)
    | _ => none
  | .reconfigured conf =>
    if s.pc = .reconfigure then some ({ s with pc := .initPfd, conf }, .reconfigureDone) else none
  | .opened fd w =>
    if s.pc = .startLog then
      let started := startLog s.header s.file w
      if started.2 then
        some ({ s with pc := .infoTest, logFd := fd, file := started.1 }, .startLogReturned fd)
      else some ({ s with pc := .exited, file := started.1 }, .tau)
    else none
  | .polled revents =>
    if s.pc = .poll then
      let pfd := setRevents s.pfd s.numFds revents
      let pc := if (pfd.take s.numFds).any PollFd.revents then Pc.monitorTest else Pc.loopHead
      some ({ s with pc := pc, pfd := pfd }, .tau)
    else none
  | .interrupted => if s.pc = .poll then some ({ s with pc := .loopHead }, .tau) else none
  | .received input writes =>
    match s.pc with
    | .dispatch k =>
      if k < s.conf.listenFds.length then
        match s.pfd[k + 1]? with
        | some e => if e.revents then s.receive k e.fd input writes else none
        | none => none
      else none
    | _ => none
  | .signal _ => none

/-- What happens next: a signal handler, at any point before the process ends, or the next
statement. -/
def next (s : Loop) : Action → Option (Loop × Event)
  | .signal sg => if s.pc = .exited then none else some (s.handle sg, .signal sg)
  | a => s.advance a

/-! A handler writes its flags and nothing else. -/

@[simp] theorem handle_pc (s : Loop) (sg : Sig) : (s.handle sg).pc = s.pc := by cases sg <;> rfl
@[simp] theorem handle_logFd (s : Loop) (sg : Sig) : (s.handle sg).logFd = s.logFd := by
  cases sg <;> rfl
@[simp] theorem handle_conf (s : Loop) (sg : Sig) : (s.handle sg).conf = s.conf := by
  cases sg <;> rfl
@[simp] theorem handle_pfd (s : Loop) (sg : Sig) : (s.handle sg).pfd = s.pfd := by cases sg <;> rfl
@[simp] theorem handle_numFds (s : Loop) (sg : Sig) : (s.handle sg).numFds = s.numFds := by
  cases sg <;> rfl
@[simp] theorem handle_monitorFd (s : Loop) (sg : Sig) : (s.handle sg).monitorFd = s.monitorFd := by
  cases sg <;> rfl
@[simp] theorem handle_header (s : Loop) (sg : Sig) : (s.handle sg).header = s.header := by
  cases sg <;> rfl
@[simp] theorem handle_file (s : Loop) (sg : Sig) : (s.handle sg).file = s.file := by
  cases sg <;> rfl
@[simp] theorem handle_reconfFlag (s : Loop) (sg : Sig) :
    (s.handle sg).reconfFlag = true ↔ s.reconfFlag = true ∨ sg = .hup := by
  cases sg <;> simp [handle]
@[simp] theorem handle_reopenFlag (s : Loop) (sg : Sig) :
    (s.handle sg).reopenFlag = true ↔ s.reopenFlag = true ∨ sg = .hup ∨ sg = .usr1 := by
  cases sg <;> simp [handle]
@[simp] theorem handle_infoFlag (s : Loop) (sg : Sig) :
    (s.handle sg).infoFlag = true ↔ s.infoFlag = true ∨ sg = .usr2 := by
  cases sg <;> simp [handle]

end Loop

/-! ### The transitions, one by one -/

/-- The transitions of `Loop.next`, one constructor per branch: the form in which proofs about
runs take a step apart. -/
inductive Step : Loop → Event → Loop → Prop
  | signal {s : Loop} (sg : Sig) (h : s.pc ≠ .exited) : Step s (.signal sg) (s.handle sg)
  | start {s : Loop} (h : s.pc = .start) :
      Step s .tau
        { s with
          pc := .loopHead
          pfd := (initPfd s.conf s.monitorFd).1
          numFds := (initPfd s.conf s.monitorFd).2 }
  | loopHead {s : Loop} (h : s.pc = .loopHead) (hx : s.exitFlag = 0) :
      Step s .tau { s with pc := .reopenTest }
  | loopExit {s : Loop} (h : s.pc = .loopHead) (hx : s.exitFlag ≠ 0) :
      Step s .tau { s with pc := .exited }
  | reopen {s : Loop} (h : s.pc = .reopenTest) (hr : s.reopenFlag = true ∧ s.logFd ≠ -1) :
      Step s .tau { s with pc := .reopenClose }
  | noReopen {s : Loop} (h : s.pc = .reopenTest) (hr : ¬(s.reopenFlag = true ∧ s.logFd ≠ -1)) :
      Step s .tau { s with pc := .reconfTest }
  | reopenClose {s : Loop} (h : s.pc = .reopenClose) :
      Step s (.closeLog s.logFd) { s with pc := .reopenResetFd }
  | reopenResetFd {s : Loop} (h : s.pc = .reopenResetFd) :
      Step s .tau { s with pc := .reopenClearFlag, logFd := -1 }
  | reopenClearFlag {s : Loop} (h : s.pc = .reopenClearFlag) :
      Step s .tau { s with pc := .reconfTest, reopenFlag := false }
  | reconfigure {s : Loop} (h : s.pc = .reconfTest) (hf : s.reconfFlag = true) :
      Step s .beginReconfigure { s with pc := .reconfigure }
  | noReconfigure {s : Loop} (h : s.pc = .reconfTest) (hf : s.reconfFlag = false) :
      Step s .tau { s with pc := .startTest }
  | reconfigured {s : Loop} (h : s.pc = .reconfigure) (conf : FlowdConfig) :
      Step s .reconfigureDone { s with pc := .initPfd, conf := conf }
  | initPfd {s : Loop} (h : s.pc = .initPfd) :
      Step s .tau
        { s with
          pc := .reconfClearFlag
          pfd := (initPfd s.conf s.monitorFd).1
          numFds := (initPfd s.conf s.monitorFd).2 }
  | reconfClearFlag {s : Loop} (h : s.pc = .reconfClearFlag) :
      Step s .reconfCleared { s with pc := .startTest, reconfFlag := false }
  | startLog {s : Loop} (h : s.pc = .startTest) (hl : s.logFd = -1) :
      Step s .beginStartLog { s with pc := .startLog }
  | noStartLog {s : Loop} (h : s.pc = .startTest) (hl : s.logFd ≠ -1) :
      Step s .tau { s with pc := .infoTest }
  | opened {s : Loop} (h : s.pc = .startLog) (fd : ℕ) (w : Write)
      (hok : (startLog s.header s.file w).2 = true) :
      Step s (.startLogReturned fd)
        { s with pc := .infoTest, logFd := fd, file := (startLog s.header s.file w).1 }
  | openFailed {s : Loop} (h : s.pc = .startLog) (w : Write)
      (hok : (startLog s.header s.file w).2 = false) :
      Step s .tau { s with pc := .exited, file := (startLog s.header s.file w).1 }
  | info {s : Loop} (h : s.pc = .infoTest) (hi : s.infoFlag = true) :
      Step s .tau { s with pc := .infoClearFlag }
  | noInfo {s : Loop} (h : s.pc = .infoTest) (hi : s.infoFlag = false) :
      Step s .tau { s with pc := .poll }
  | infoClearFlag {s : Loop} (h : s.pc = .infoClearFlag) :
      Step s .tau { s with pc := .logRules, infoFlag := false }
  | logRules {s : Loop} (h : s.pc = .logRules) : Step s .beginDump { s with pc := .dumpPeers }
  | dumpPeers {s : Loop} (h : s.pc = .dumpPeers) :
      Step s .tau { s with pc := .poll, peers := s.peers.dumpPeers.1 }
  | polled {s : Loop} (h : s.pc = .poll) (revents : List Bool)
      (hr : ((setRevents s.pfd s.numFds revents).take s.numFds).any PollFd.revents = true) :
      Step s .tau { s with pc := .monitorTest, pfd := setRevents s.pfd s.numFds revents }
  | polledNone {s : Loop} (h : s.pc = .poll) (revents : List Bool)
      (hr : ((setRevents s.pfd s.numFds revents).take s.numFds).any PollFd.revents = false) :
      Step s .tau { s with pc := .loopHead, pfd := setRevents s.pfd s.numFds revents }
  | interrupted {s : Loop} (h : s.pc = .poll) : Step s .tau { s with pc := .loopHead }
  | monitorClosed {s : Loop} (h : s.pc = .monitorTest) {e : PollFd} (he : s.pfd[0]? = some e)
      (hr : e.revents = true) : Step s .tau { s with pc := .exited }
  | monitorOpen {s : Loop} (h : s.pc = .monitorTest) {e : PollFd} (he : s.pfd[0]? = some e)
      (hr : e.revents = false) : Step s .tau { s with pc := .dispatch 0 }
  | notReadable {s : Loop} {k : ℕ} (h : s.pc = .dispatch k) (hk : k < s.conf.listenFds.length)
      {e : PollFd} (he : s.pfd[k + 1]? = some e) (hr : e.revents = false) :
      Step s .tau { s with pc := .dispatch (k + 1) }
  | dispatchDone {s : Loop} {k : ℕ} (h : s.pc = .dispatch k) (hk : s.conf.listenFds.length ≤ k) :
      Step s .tau { s with pc := .loopHead }
  | received {s : Loop} {k : ℕ} (h : s.pc = .dispatch k) (hk : k < s.conf.listenFds.length)
      {e : PollFd} (he : s.pfd[k + 1]? = some e) (hr : e.revents = true) (input : Input)
      (writes : List Write) {peers : Peers} {flows : List StoreFlowComplete}
      (hp : processInput s.peers input.calloc input.now input.time input.recv = some (peers, flows))
      (hok : (putFlows s.file s.conf.storeMask (flows.filterMap (processFlow s.conf)) writes).2) :
      Step s (.processInput e.fd s.logFd)
        { s with
          pc := .dispatch (k + 1)
          peers := peers
          file := (putFlows s.file s.conf.storeMask (flows.filterMap (processFlow s.conf)) writes).1 }
  | receiveFailed {s : Loop} {k : ℕ} (h : s.pc = .dispatch k) (hk : k < s.conf.listenFds.length)
      {e : PollFd} (he : s.pfd[k + 1]? = some e) (hr : e.revents = true) (input : Input)
      (writes : List Write) {peers : Peers} {flows : List StoreFlowComplete}
      (hp : processInput s.peers input.calloc input.now input.time input.recv = some (peers, flows))
      (hok : (putFlows s.file s.conf.storeMask (flows.filterMap (processFlow s.conf)) writes).2 =
        false) :
      Step s (.processInput e.fd s.logFd)
        { s with
          pc := .exited
          peers := peers
          file := (putFlows s.file s.conf.storeMask (flows.filterMap (processFlow s.conf)) writes).1 }

/-- Every step of `Loop.next` is one of the transitions. -/
theorem step_of_next {s s' : Loop} {a : Action} {e : Event} (h : s.next a = some (s', e)) :
    Step s e s' := by
  have some_inj : ∀ {x y : Loop} {u v : Event}, some (x, u) = some (y, v) → x = y ∧ u = v :=
    fun h => Prod.mk.inj (Option.some.inj h)
  cases a with
  | signal sg =>
    simp only [Loop.next] at h
    split_ifs at h with hx
    obtain ⟨rfl, rfl⟩ := some_inj h
    exact .signal sg hx
  | step =>
    simp only [Loop.next, Loop.advance] at h
    generalize hpc : s.pc = pc at h
    cases pc <;> simp only at h
    case start => obtain ⟨rfl, rfl⟩ := some_inj h; exact .start hpc
    case loopHead =>
      split_ifs at h with hx
      · obtain ⟨rfl, rfl⟩ := some_inj h; exact .loopHead hpc hx
      · obtain ⟨rfl, rfl⟩ := some_inj h; exact .loopExit hpc hx
    case reopenTest =>
      split_ifs at h with hr
      · obtain ⟨rfl, rfl⟩ := some_inj h; exact .reopen hpc hr
      · obtain ⟨rfl, rfl⟩ := some_inj h; exact .noReopen hpc hr
    case reopenClose => obtain ⟨rfl, rfl⟩ := some_inj h; exact .reopenClose hpc
    case reopenResetFd => obtain ⟨rfl, rfl⟩ := some_inj h; exact .reopenResetFd hpc
    case reopenClearFlag => obtain ⟨rfl, rfl⟩ := some_inj h; exact .reopenClearFlag hpc
    case reconfTest =>
      split_ifs at h with hf
      · obtain ⟨rfl, rfl⟩ := some_inj h; exact .reconfigure hpc hf
      · obtain ⟨rfl, rfl⟩ := some_inj h; exact .noReconfigure hpc (by simpa using hf)
    case initPfd => obtain ⟨rfl, rfl⟩ := some_inj h; exact .initPfd hpc
    case reconfClearFlag => obtain ⟨rfl, rfl⟩ := some_inj h; exact .reconfClearFlag hpc
    case startTest =>
      split_ifs at h with hl
      · obtain ⟨rfl, rfl⟩ := some_inj h; exact .startLog hpc hl
      · obtain ⟨rfl, rfl⟩ := some_inj h; exact .noStartLog hpc hl
    case infoTest =>
      split_ifs at h with hi
      · obtain ⟨rfl, rfl⟩ := some_inj h; exact .info hpc hi
      · obtain ⟨rfl, rfl⟩ := some_inj h; exact .noInfo hpc (by simpa using hi)
    case infoClearFlag => obtain ⟨rfl, rfl⟩ := some_inj h; exact .infoClearFlag hpc
    case logRules => obtain ⟨rfl, rfl⟩ := some_inj h; exact .logRules hpc
    case dumpPeers => obtain ⟨rfl, rfl⟩ := some_inj h; exact .dumpPeers hpc
    case monitorTest =>
      cases he : s.pfd[0]? with
      | none => simp [he] at h
      | some e =>
        simp only [he, Option.map_some'] at h
        split_ifs at h with hr
        · obtain ⟨rfl, rfl⟩ := some_inj h; exact .monitorClosed hpc he hr
        · obtain ⟨rfl, rfl⟩ := some_inj h; exact .monitorOpen hpc he (by simpa using hr)
    case dispatch k =>
      split_ifs at h with hk
      · cases he : s.pfd[k + 1]? with
        | none => simp [he] at h
        | some e =>
          simp only [he] at h
          split_ifs at h with hr
          obtain ⟨rfl, rfl⟩ := some_inj h; exact .notReadable hpc hk he (by simpa using hr)
      · obtain ⟨rfl, rfl⟩ := some_inj h; exact .dispatchDone hpc (by omega)
    all_goals cases h
  | reconfigured conf =>
    simp only [Loop.next, Loop.advance] at h
    split_ifs at h with hpc
    obtain ⟨rfl, rfl⟩ := some_inj h
    exact .reconfigured hpc conf
  | opened fd w =>
    simp only [Loop.next, Loop.advance] at h
    split_ifs at h with hpc hok
    · obtain ⟨rfl, rfl⟩ := some_inj h
      exact .opened hpc fd w hok
    · obtain ⟨rfl, rfl⟩ := some_inj h
      exact .openFailed hpc w (by simpa using hok)
  | polled revents =>
    simp only [Loop.next, Loop.advance] at h
    split_ifs at h with hpc hr
    · obtain ⟨rfl, rfl⟩ := some_inj h; exact .polled hpc revents hr
    · obtain ⟨rfl, rfl⟩ := some_inj h; exact .polledNone hpc revents (by simpa using hr)
  | interrupted =>
    simp only [Loop.next, Loop.advance] at h
    split_ifs at h with hpc
    obtain ⟨rfl, rfl⟩ := some_inj h
    exact .interrupted hpc
  | received input writes =>
    simp only [Loop.next, Loop.advance] at h
    generalize hpc : s.pc = pc at h
    cases pc <;> simp only at h
    case dispatch k =>
      split_ifs at h with hk
      cases he : s.pfd[k + 1]? with
      | none => simp [he] at h
      | some e =>
        simp only [he] at h
        split_ifs at h with hr
        simp only [Loop.receive, Option.bind_eq_bind, Option.bind_eq_some] at h
        obtain ⟨⟨peers, flows⟩, hp, h⟩ := h
        split_ifs at h with hok
        · obtain ⟨rfl, rfl⟩ := some_inj h; exact .received hpc hk he hr input writes hp hok
        · obtain ⟨rfl, rfl⟩ := some_inj h
          exact .receiveFailed hpc hk he hr input writes hp (by simpa using hok)
    all_goals cases h

/-- Every transition is a step of `Loop.next`: the view loses nothing. -/
theorem next_of_step {s s' : Loop} {e : Event} (h : Step s e s') : ∃ a, s.next a = some (s', e) := by
  cases h with
  | signal sg h => exact ⟨.signal sg, by simp [Loop.next, h]⟩
  | reconfigured h conf => exact ⟨.reconfigured conf, by simp [Loop.next, Loop.advance, h]⟩
  | opened h fd w hok => exact ⟨.opened fd w, by simp [Loop.next, Loop.advance, h, hok]⟩
  | openFailed h w hok => exact ⟨.opened 0 w, by simp [Loop.next, Loop.advance, h, hok]⟩
  | polled h revents hr => exact ⟨.polled revents, by simp [Loop.next, Loop.advance, h, hr]⟩
  | polledNone h revents hr => exact ⟨.polled revents, by simp [Loop.next, Loop.advance, h, hr]⟩
  | interrupted h => exact ⟨.interrupted, by simp [Loop.next, Loop.advance, h]⟩
  | received h hk he hr input writes hp hok =>
    exact ⟨.received input writes,
      by simp [Loop.next, Loop.advance, Loop.receive, h, hk, he, hr, hp, hok]⟩
  | receiveFailed h hk he hr input writes hp hok =>
    exact ⟨.received input writes,
      by simp [Loop.next, Loop.advance, Loop.receive, h, hk, he, hr, hp, hok]⟩
  | _ h => exact ⟨.step, by simp_all [Loop.next, Loop.advance]⟩

/-- The states one run of the worker reaches, with the events so far. -/
inductive Reach : Loop → List Event → Prop
  | init (header : List UInt8) (conf : FlowdConfig) (monitorFd : ℕ) (peers : Peers)
      (file : List UInt8) : Reach (Loop.init header conf monitorFd peers file) []
  | step {s s' : Loop} {tr : List Event} {a : Action} {e : Event} :
      Reach s tr → s.next a = some (s', e) → Reach s' (tr ++ [e])

/-- The runs of the worker from any state, with the events of each step in order. -/
inductive Steps : Loop → List Event → Loop → Prop
  | refl (s : Loop) : Steps s [] s
  | tail {s s' s'' : Loop} {tr : List Event} {a : Action} {e : Event} :
      Steps s tr s' → s'.next a = some (s'', e) → Steps s (tr ++ [e]) s''

theorem Reach.of_step {s s' : Loop} {tr : List Event} {e : Event} (h : Reach s tr)
    (hs : Step s e s') : Reach s' (tr ++ [e]) :=
  let ⟨_, ha⟩ := next_of_step hs
  h.step ha

/-- A property of the worker's states and traces that holds at the start and that every
transition from a reachable state keeps holds along every run. -/
theorem Reach.invariant {P : Loop → List Event → Prop}
    (init : ∀ header conf monitorFd peers file, P (Loop.init header conf monitorFd peers file) [])
    (step : ∀ {s s' : Loop} {tr : List Event} {e : Event}, Reach s tr → P s tr → Step s e s' →
      P s' (tr ++ [e]))
    {s : Loop} {tr : List Event} (h : Reach s tr) : P s tr := by
  induction h with
  | init header conf monitorFd peers file => exact init header conf monitorFd peers file
  | step hr ha ih => exact step hr ih (step_of_next ha)

theorem Steps.of_step {s s' s'' : Loop} {tr : List Event} {e : Event} (h : Steps s tr s')
    (hs : Step s' e s'') : Steps s (tr ++ [e]) s'' :=
  let ⟨_, ha⟩ := next_of_step hs
  h.tail ha

theorem Reach.of_steps {header : List UInt8} {conf : FlowdConfig} {monitorFd : ℕ} {peers : Peers}
    {file : List UInt8} {s : Loop} {tr : List Event}
    (h : Steps (Loop.init header conf monitorFd peers file) tr s) : Reach s tr := by
  induction h with
  | refl => exact .init header conf monitorFd peers file
  | tail _ ha ih => exact ih.step ha

/-- The first iteration with no signal: `init_pfd`, the flag tests, a `start_log` that succeeds
with descriptor `fd`, and the call of `poll`. -/
theorem Steps.first_poll (header : List UInt8) (conf : FlowdConfig) (monitorFd : ℕ) (peers : Peers)
    (file : List UInt8) (fd : ℕ) (w : Write) (hok : (startLog header file w).2 = true) :
    Steps (Loop.init header conf monitorFd peers file)
      [.tau, .tau, .tau, .tau, .beginStartLog, .startLogReturned fd, .tau]
      { Loop.init header conf monitorFd peers file with
        pc := .poll
        logFd := fd
        pfd := (initPfd conf monitorFd).1
        numFds := (initPfd conf monitorFd).2
        file := (startLog header file w).1 } :=
  Steps.refl (Loop.init header conf monitorFd peers file)
    |>.of_step (.start rfl) |>.of_step (.loopHead rfl rfl)
    |>.of_step (.noReopen rfl fun h => Bool.noConfusion h.1) |>.of_step (.noReconfigure rfl rfl)
    |>.of_step (.startLog rfl rfl) |>.of_step (.opened rfl fd w hok) |>.of_step (.noInfo rfl rfl)

end Flowd
