import Flowd.Mainloop

/-!
# Control requests

`sighand_reconf`, `sighand_reopen` and `sighand_info` only set flags. The loop serves each flag
at its head and clears it: `reopen_flag` by closing the log, so that the test of `log_fd` calls
`start_log`; `reconf_flag` after `client_reconfigure` and `init_pfd`; `info_flag` just before
`dump_peers`. A handler may run between any two of these statements, so each request is followed
from its delivery (a `.signal` event of the trace) to the call that serves it.

## What a delivery is owed

A request is *served* (`Flowd.Request.Served`) when, for each delivery so far, its flag is still
set, or the serving call began after the delivery, or the request is in a known state between
the two. That state is the field `pending` of `Flowd.Request`, and it differs between the three
requests:

* `SIGUSR2`: the flag is cleared one statement before `dump_peers` is called (`logRules`);
* `SIGUSR1` and `SIGHUP` (reopen): once `log_fd = -1` and `reopen_flag = 0` have run, the next
  `start_log` is certain but has not begun, until the test of `log_fd`;
* `SIGHUP` (reconfiguration): a delivery that lands after `client_reconfigure` has begun and
  before `reconf_flag = 0` is cleared with the running call, which began *before* it. No later
  call is owed to it: the request is lost (`Flowd.Reconfiguring`).

## Main results

* `Flowd.control_requests_served` — in every reachable state, every delivery of `SIGHUP`,
  `SIGUSR1` and `SIGUSR2` is served up to the states above
* `Flowd.sighup_lost` — a reachable state in which a `SIGHUP` was cleared with no
  `client_reconfigure` begun after it, and from which no run without a further `SIGHUP` ever
  calls `client_reconfigure`
-/

namespace Flowd

/-! ### Splitting a trace -/

section Split

variable {α : Type*}

/-- A split of a trace with one more event is the new event, or a split of the old trace. -/
theorem split_snoc {tr pre post : List α} {x e : α} (h : tr ++ [e] = pre ++ x :: post) :
    (pre = tr ∧ x = e ∧ post = []) ∨ ∃ post', post = post' ++ [e] ∧ tr = pre ++ x :: post' := by
  rcases List.eq_nil_or_concat post with rfl | ⟨post', y, rfl⟩
  · obtain ⟨rfl, hx⟩ := List.append_inj' h rfl
    exact .inl ⟨rfl, (List.singleton_inj.1 hx).symm, rfl⟩
  · rw [List.concat_eq_append, ← List.cons_append, ← List.append_assoc] at h
    obtain ⟨rfl, hy⟩ := List.append_inj' h rfl
    exact .inr ⟨post', by rw [List.concat_eq_append, List.singleton_inj.1 hy], rfl⟩

/-- Two splits of one trace at different events: the second event comes after the first, or the
first comes after the second with nothing but a prefix of what follows the second between them. -/
theorem mem_or_split {pre post P Q : List α} {x y : α} (hxy : x ≠ y)
    (h : pre ++ x :: post = P ++ y :: Q) : y ∈ post ∨ ∃ c, pre = P ++ y :: c ∧ c <+: Q := by
  rcases List.append_eq_append_iff.1 h with ⟨a, rfl, ha⟩ | ⟨c, rfl, hc⟩
  · cases a with
    | nil => exact absurd (List.cons.inj ha).1 hxy
    | cons z a =>
      obtain ⟨-, rfl⟩ := List.cons.inj ha
      exact .inl (by simp)
  · cases c with
    | nil => exact absurd (List.cons.inj hc).1.symm hxy
    | cons z c =>
      obtain ⟨rfl, rfl⟩ := List.cons.inj hc
      exact .inr ⟨c, rfl, List.prefix_append _ _⟩

end Split

/-! ### Requests -/

/-- A control request: the signals whose handler raises it, its flag, the call that serves it,
and the states between a delivery and that call in which the flag may be clear. The fields
below the data say what holds of every handler: each raising signal sets the flag, no handler
clears it, and none moves the loop out of a pending state. -/
structure Request where
  raisedBy : Sig → Prop
  flag : Loop → Bool
  serve : Event
  pending : Loop → List Event → Prop
  flag_handle : ∀ (s : Loop) (sg : Sig), raisedBy sg → flag (s.handle sg) = true
  flag_handle_of : ∀ (s : Loop) (sg : Sig), flag s = true → flag (s.handle sg) = true
  pending_handle : ∀ (s : Loop) (sg : Sig) (pre : List Event), pending s pre →
    pending (s.handle sg) pre

namespace Request

/-- Every delivery in `tr` of a signal that raises `r`, with `pre` the trace before it and
`post` the trace after it, is still flagged, served by a call in `post`, or pending. -/
def Served (r : Request) (s : Loop) (tr : List Event) : Prop :=
  ∀ pre sg post, tr = pre ++ .signal sg :: post → r.raisedBy sg →
    r.flag s = true ∨ r.serve ∈ post ∨ r.pending s pre

variable {r : Request} {s s' : Loop} {tr : List Event} {e : Event}

theorem served_nil (r : Request) (s : Loop) : r.Served s [] := fun pre _ _ h _ => by
  cases pre <;> cases h

/-- One step: a new delivery must set the flag; an old one that was flagged or pending must stay
so, or be served by this step. -/
theorem Served.snoc (hs : r.Served s tr)
    (hnew : ∀ sg, e = .signal sg → r.raisedBy sg → r.flag s' = true)
    (hold : ∀ pre sg post, tr = pre ++ .signal sg :: post → r.flag s = true ∨ r.pending s pre →
      r.flag s' = true ∨ r.serve ∈ post ++ [e] ∨ r.pending s' pre) :
    r.Served s' (tr ++ [e]) := by
  intro pre sg post h hr
  rcases split_snoc h with ⟨rfl, rfl, rfl⟩ | ⟨post, rfl, htr⟩
  · exact .inl (hnew sg rfl hr)
  · rcases hs pre sg post htr hr with hf | hm | hp
    · exact hold pre sg post htr (.inl hf)
    · exact .inr (.inl (List.mem_append_left _ hm))
    · exact hold pre sg post htr (.inr hp)

/-- A step that raises nothing, keeps the flag and keeps what is pending. -/
theorem Served.frame (hs : r.Served s tr) (he : ∀ sg, e ≠ .signal sg) (hf : r.flag s' = r.flag s)
    (hp : ∀ pre, r.pending s pre → r.pending s' pre) : r.Served s' (tr ++ [e]) :=
  hs.snoc (fun sg h => absurd h (he sg)) fun pre _ _ _ h =>
    h.elim (fun h => .inl (hf ▸ h)) fun h => .inr (.inr (hp pre h))

/-- A handler keeps every request served. -/
theorem Served.signal (hs : r.Served s tr) (sg : Sig) :
    r.Served (s.handle sg) (tr ++ [.signal sg]) :=
  hs.snoc (fun _ h hr => by cases h; exact r.flag_handle s _ hr) fun pre _ _ _ h =>
    h.elim (fun h => .inl (r.flag_handle_of s sg h)) fun h => .inr (.inr (r.pending_handle s sg pre h))

end Request

/-- A call of `client_reconfigure` has begun and `reconf_flag = 0` has not run since. -/
def Reconfiguring (tr : List Event) : Prop :=
  ∃ pre post, tr = pre ++ .beginReconfigure :: post ∧ .reconfCleared ∉ post

theorem Reconfiguring.snoc {tr : List Event} {e : Event} (h : Reconfiguring tr)
    (he : e ≠ .reconfCleared) : Reconfiguring (tr ++ [e]) :=
  let ⟨pre, post, htr, hc⟩ := h
  ⟨pre, post ++ [e], by simp [htr], by simp [hc, he.symm]⟩

/-- The statements between the entry of `client_reconfigure` and `reconf_flag = 0`. -/
def Pc.reconfiguring : Pc → Bool
  | .reconfigure | .initPfd | .reconfClearFlag => true
  | _ => false

/-- The statements between `reopen_flag = 0` and the test of `log_fd`. -/
def Pc.reopenPending : Pc → Bool
  | .reconfTest | .reconfigure | .initPfd | .reconfClearFlag | .startTest => true
  | _ => false

/-- `SIGHUP` asks for `client_reconfigure`; a delivery during a running call is cleared with it. -/
def Request.reconf : Request where
  raisedBy sg := sg = .hup
  flag := Loop.reconfFlag
  serve := .beginReconfigure
  pending _ pre := Reconfiguring pre
  flag_handle _ _ h := by simp [h]
  flag_handle_of _ _ h := by simp [h]
  pending_handle _ _ _ h := h

/-- `SIGHUP` and `SIGUSR1` ask for a new `start_log`; once the log is closed and the flag
cleared, the call is certain at the test of `log_fd`. -/
def Request.reopen : Request where
  raisedBy sg := sg = .hup ∨ sg = .usr1
  flag := Loop.reopenFlag
  serve := .beginStartLog
  pending s _ := s.logFd = -1 ∧ s.pc.reopenPending = true
  flag_handle _ _ h := by simp [h]
  flag_handle_of _ _ h := by simp [h]
  pending_handle _ _ _ h := by simpa using h

/-- `SIGUSR2` asks for `dump_peers`, which follows the clearing of the flag. -/
def Request.info : Request where
  raisedBy sg := sg = .usr2
  flag := Loop.infoFlag
  serve := .beginDump
  pending s _ := s.pc = .logRules
  flag_handle _ _ h := by simp [h]
  flag_handle_of _ _ h := by simp [h]
  pending_handle _ _ _ h := by simpa using h

/-! ### The loop's side -/

/-- What the loop keeps between a flag's test and its clearing. -/
structure ControlAux (s : Loop) (tr : List Event) : Prop where
  reconfiguring : s.pc.reconfiguring = true → Reconfiguring tr
  logClosed : s.pc = .reopenClearFlag → s.logFd = -1

theorem ControlAux.step {s s' : Loop} {tr : List Event} {e : Event} (h : Step s e s')
    (hs : ControlAux s tr) : ControlAux s' (tr ++ [e]) := by
  cases h with
  | signal sg _ =>
    exact ⟨fun h => (hs.reconfiguring (by simpa using h)).snoc (by simp),
      fun h => by simpa using hs.logClosed (by simpa using h)⟩
  | reconfigure _ _ => exact ⟨fun _ => ⟨tr, [], rfl, by simp⟩, fun h => nomatch h⟩
  | reconfigured hpc _ | initPfd hpc =>
    exact ⟨fun _ => (hs.reconfiguring (by rw [hpc]; rfl)).snoc (by simp), fun h => nomatch h⟩
  | reopenResetFd _ => exact ⟨(fun h => nomatch h), fun _ => rfl⟩
  | _ => exact ⟨(fun h => nomatch h), fun h => nomatch h⟩

theorem Reach.controlAux {s : Loop} {tr : List Event} (h : Reach s tr) : ControlAux s tr :=
  h.invariant (fun _ _ _ _ _ => ⟨(fun h => nomatch h), fun h => nomatch h⟩) fun _ hs hstep =>
    hs.step hstep

theorem Request.reconf_step {s s' : Loop} {tr : List Event} {e : Event} (h : Step s e s')
    (ha : ControlAux s tr) (hs : Request.reconf.Served s tr) :
    Request.reconf.Served s' (tr ++ [e]) := by
  cases h with
  | signal sg _ => exact hs.signal sg
  | reconfClearFlag hpc =>
    refine hs.snoc (fun _ h => nomatch h) fun pre _ post htr _ => ?_
    obtain ⟨P, Q, hPQ, hQ⟩ := ha.reconfiguring (by rw [hpc]; rfl)
    rcases mem_or_split (by simp) (htr.symm.trans hPQ) with hm | ⟨c, rfl, hc⟩
    · exact .inr (.inl (List.mem_append_left _ hm))
    · exact .inr (.inr ⟨P, c, rfl, fun hm => hQ (hc.subset hm)⟩)
  | _ => exact hs.frame (by simp) rfl fun _ h => h

theorem Request.reopen_step {s s' : Loop} {tr : List Event} {e : Event} (h : Step s e s')
    (ha : ControlAux s tr) (hs : Request.reopen.Served s tr) :
    Request.reopen.Served s' (tr ++ [e]) := by
  cases h with
  | signal sg _ => exact hs.signal sg
  | reopenClearFlag hpc =>
    exact hs.snoc (fun _ h => nomatch h) fun _ _ _ _ _ => .inr (.inr ⟨ha.logClosed hpc, rfl⟩)
  | startLog _ _ =>
    exact hs.snoc (fun _ h => nomatch h) fun _ _ _ _ h =>
      h.elim .inl fun _ => .inr (.inl (by simp [Request.reopen]))
  | noReopen _ _ | reconfigure _ _ | noReconfigure _ _ | reconfigured _ _ | initPfd _
  | reconfClearFlag _ =>
    exact hs.frame (by simp) rfl fun _ h => ⟨h.1, rfl⟩
  | noStartLog _ hl => exact hs.frame (by simp) rfl fun _ h => absurd h.1 hl
  | _ hpc => exact hs.frame (by simp) rfl fun _ h => by simp [Request.reopen, hpc, Pc.reopenPending] at h

theorem Request.info_step {s s' : Loop} {tr : List Event} {e : Event} (h : Step s e s')
    (hs : Request.info.Served s tr) : Request.info.Served s' (tr ++ [e]) := by
  cases h with
  | signal sg _ => exact hs.signal sg
  | infoClearFlag _ => exact hs.snoc (fun _ h => nomatch h) fun _ _ _ _ _ => .inr (.inr rfl)
  | logRules _ =>
    exact hs.snoc (fun _ h => nomatch h) fun _ _ _ _ h =>
      h.elim .inl fun _ => .inr (.inl (by simp [Request.info]))
  | _ hpc => exact hs.frame (by simp) rfl fun _ h => by simp [Request.info, hpc] at h

/-- In every reachable state: every `SIGHUP` so far is still flagged, or a `client_reconfigure`
began after it, or it came while one was running; every `SIGHUP` and `SIGUSR1` is still flagged,
or a `start_log` began after it, or the log is closed and the loop is on its way to the test of
`log_fd`; and every `SIGUSR2` is still flagged, or `dump_peers` began after it, or the loop is
about to call it. -/
theorem control_requests_served {s : Loop} {tr : List Event} (h : Reach s tr) :
    (∀ pre post, tr = pre ++ .signal .hup :: post →
      s.reconfFlag = true ∨ .beginReconfigure ∈ post ∨ Reconfiguring pre) ∧
    (∀ pre sg post, tr = pre ++ .signal sg :: post → sg = .hup ∨ sg = .usr1 →
      s.reopenFlag = true ∨ .beginStartLog ∈ post ∨ s.logFd = -1 ∧ s.pc.reopenPending = true) ∧
    (∀ pre post, tr = pre ++ .signal .usr2 :: post →
      s.infoFlag = true ∨ .beginDump ∈ post ∨ s.pc = .logRules) := by
  have served : Request.reconf.Served s tr ∧ Request.reopen.Served s tr ∧
      Request.info.Served s tr :=
    h.invariant (P := fun s tr => Request.reconf.Served s tr ∧ Request.reopen.Served s tr ∧
      Request.info.Served s tr) (fun _ _ _ _ _ => ⟨Request.served_nil _ _, Request.served_nil _ _,
      Request.served_nil _ _⟩) fun hr ⟨h₁, h₂, h₃⟩ hstep =>
        ⟨Request.reconf_step hstep hr.controlAux h₁, Request.reopen_step hstep hr.controlAux h₂,
          Request.info_step hstep h₃⟩
  exact ⟨fun pre post htr => served.1 pre _ post htr rfl, served.2.1,
    fun pre post htr => served.2.2 pre _ post htr rfl⟩

/-- A `SIGUSR2` at the head of the first iteration is still flagged. -/
theorem control_requests_served_usr2 :
    ∃ s tr, Reach s tr ∧ tr = [.tau, .signal .usr2] ∧ s.infoFlag = true := by
  have hr := Reach.init [1] ⟨[], fun _ => .discard, 0⟩ 3
      (Peers.init 1 fun _ => Peers.freshPeer (.v4 0) ⟨0, 0⟩) []
    |>.of_step (.start rfl) |>.of_step (.signal .usr2 fun h => Pc.noConfusion h)
  refine ⟨_, _, hr, rfl, ?_⟩
  rcases (control_requests_served hr).2.2 [.tau] [] rfl with h | h | h
  · exact h
  · cases h
  · cases h

/-! ### A lost `SIGHUP` -/

/-- With `reconf_flag` clear, only a `SIGHUP` can lead to `client_reconfigure`. -/
theorem Step.reconfFlag_quiet {s s' : Loop} {e : Event} (h : Step s e s')
    (hf : s.reconfFlag = false) (he : e ≠ .signal .hup) :
    s'.reconfFlag = false ∧ e ≠ .beginReconfigure := by
  cases h with
  | signal sg _ =>
    refine ⟨?_, by simp⟩
    cases sg <;> first | exact absurd rfl he | exact hf
  | reconfigure _ hf' => exact absurd (hf.symm.trans hf') (by decide)
  | reconfClearFlag _ => exact ⟨rfl, by simp⟩
  | _ => exact ⟨hf, by simp⟩

theorem Steps.reconfFlag_quiet {s s' : Loop} {tr : List Event} (h : Steps s tr s')
    (hf : s.reconfFlag = false) (hhup : .signal .hup ∉ tr) :
    s'.reconfFlag = false ∧ .beginReconfigure ∉ tr := by
  induction h with
  | refl => exact ⟨hf, by simp⟩
  | tail _ ha ih =>
    simp only [List.mem_append, List.mem_singleton, not_or] at hhup ⊢
    obtain ⟨hf', hnot⟩ := ih hhup.1
    obtain ⟨hf'', hne⟩ := (step_of_next ha).reconfFlag_quiet hf' (Ne.symm hhup.2)
    exact ⟨hf'', hnot, Ne.symm hne⟩

/-- A `SIGHUP` delivered while `client_reconfigure` runs is cleared by `reconf_flag = 0`: the
worker reaches `poll` with the flag clear and no `client_reconfigure` begun after the delivery,
and no continuation without another `SIGHUP` ever begins one. -/
theorem sighup_lost :
    ∃ s tr pre post, Reach s tr ∧ tr = pre ++ .signal .hup :: post ∧ s.pc = .poll ∧
      s.reconfFlag = false ∧ .beginReconfigure ∉ post ∧
      ∀ tr' s', Steps s tr' s' → .signal .hup ∉ tr' → .beginReconfigure ∉ tr' := by
  let conf : FlowdConfig := ⟨[], fun _ => .discard, 0⟩
  have hr := Reach.init [1] conf 3 (Peers.init 1 fun _ => Peers.freshPeer (.v4 0) ⟨0, 0⟩) []
    |>.of_step (.start rfl) |>.of_step (.signal .hup fun h => Pc.noConfusion h) |>.of_step (.loopHead rfl rfl)
    |>.of_step (.noReopen rfl fun h => h.2 rfl) |>.of_step (.reconfigure rfl rfl)
    |>.of_step (.signal .hup fun h => Pc.noConfusion h) |>.of_step (.reconfigured rfl conf) |>.of_step (.initPfd rfl)
    |>.of_step (.reconfClearFlag rfl) |>.of_step (.startLog rfl rfl)
    |>.of_step (.opened rfl 7 .complete rfl) |>.of_step (.noInfo rfl rfl)
  exact ⟨_, _, [.tau, .signal .hup, .tau, .tau, .beginReconfigure], _, hr, rfl, rfl, rfl,
    by decide, fun _ _ hs hhup => (hs.reconfFlag_quiet rfl hhup).2⟩

end Flowd
