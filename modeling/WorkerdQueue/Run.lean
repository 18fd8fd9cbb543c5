import WorkerdQueue.Dispatch
import WorkerdQueue.LedgerHistory

/-! `QueueCustomEventImpl::run` over the signals it waits on. With the compatibility
flag on, the handler's promise races the time limit and an abort, and a service-worker
handler that returned still waits in `finishScheduled`; with it off, `finishScheduled`
waits for the `waitUntil` tasks from the start. The signal that ends the wait fixes the
outcome, which is `runOutcome` of what the signals show, and the caller reads the ledger
the calls before it left. Over RPC the consumer's report comes back through the response
handler, so a sender gets what local delivery reports. -/

namespace WorkerdQueue

/-- What `run` waits on, in the order the event loop delivers it: a call on the ledger
(from the handler or a task it left running), `runProm` and then the handler's promise
settling, `finishScheduled`'s wait for the `waitUntil` tasks ending with
`waitUntilStatus()`, the time limit, an abort. -/
inductive RunSignal
  | call (c : LedgerCall)
  | handlerSettled (ok : Bool)
  | waitUntilSettled (status : EventOutcome)
  | timeLimit
  | abort

namespace RunSignal

@[simp] def raceWinner? : RunSignal → Option RaceWinner
  | handlerSettled true => some .handlerDone
  | handlerSettled false => some .handlerFailed
  | timeLimit => some .timeLimit
  | abort => some .abort
  | _ => none

@[simp] def finishResult? : RunSignal → Option (FinishScheduledResult × EventOutcome)
  | waitUntilSettled status => some (.completed, status)
  | timeLimit => some (.timeout, .exceededCpu)
  | abort => some (.aborted, .exceededCpu)
  | _ => none

end RunSignal

structure RunConfig where
  noWaitForWaitUntil : Bool
  isServiceWorkerHandler : Bool
  limitsExceeded : Option EventOutcome

inductive RunPhase
  | racing
  | finishing
  | resolved (outcome : EventOutcome)

structure RunState where
  phase : RunPhase
  settled : Option EventOutcome
  ledger : QueueEventResult

namespace RunState

def init (cfg : RunConfig) : RunState :=
  ⟨if cfg.noWaitForWaitUntil then .racing else .finishing, none, {}⟩

def resolve (cfg : RunConfig) (st : RunState) (outcome : EventOutcome) : RunState :=
  { st with phase := .resolved (if cfg.noWaitForWaitUntil then cfg.limitsExceeded.getD outcome else outcome) }

def step (cfg : RunConfig) (st : RunState) (sig : RunSignal) : RunState :=
  match st.phase, sig with
  | .resolved _, _ => st
  | _, .call c => { st with ledger := c.apply st.ledger }
  | .racing, .handlerSettled true =>
    if cfg.isServiceWorkerHandler then
      match st.settled with
      | some status => st.resolve cfg status
      | none => { st with phase := .finishing }
    else st.resolve cfg .ok
  | .racing, .handlerSettled false => st.resolve cfg .exception
  | .racing, .waitUntilSettled status => { st with settled := st.settled.or (some status) }
  | .racing, .timeLimit => st.resolve cfg .exceededCpu
  | .racing, .abort => st.resolve cfg .exception
  | .finishing, .handlerSettled _ => st
  | .finishing, .waitUntilSettled status => st.resolve cfg status
  | .finishing, .timeLimit => st.resolve cfg .exceededCpu
  | .finishing, .abort => st.resolve cfg .exceededCpu

def report (st : RunState) : Option (EventOutcome × QueueEventResult) :=
  match st.phase with
  | .resolved outcome => some (outcome, st.ledger)
  | _ => none

end RunState

def runSignals (cfg : RunConfig) (signals : List RunSignal) : RunState :=
  signals.foldl (RunState.step cfg) (RunState.init cfg)

def runReport (cfg : RunConfig) (signals : List RunSignal) : Option (EventOutcome × QueueEventResult) :=
  (runSignals cfg signals).report

/-- What the signals show `run`: the first one the race takes, and the first one
`finishScheduled` takes with its status (a timeout where none has come, which `run`
then does not read). -/
def RunConfig.observe (cfg : RunConfig) (signals : List RunSignal) : RunObservation where
  race := (signals.findSome? RunSignal.raceWinner?).getD .timeLimit
  isServiceWorkerHandler := cfg.isServiceWorkerHandler
  finishScheduled := ((signals.findSome? RunSignal.finishResult?).map Prod.fst).getD .timeout
  waitUntilStatus := ((signals.findSome? RunSignal.finishResult?).map Prod.snd).getD .exceededCpu
  limitsExceeded := cfg.limitsExceeded

namespace RunState

variable {cfg : RunConfig} {st : RunState} {t : List RunSignal}

theorem report_eq_some {r : EventOutcome × QueueEventResult} :
    st.report = some r ↔ st.phase = .resolved r.1 ∧ st.ledger = r.2 := by
  obtain ⟨phase, settled, ledger⟩ := st
  cases phase <;> simp [report, Prod.ext_iff, eq_comm]

theorem step_of_resolved {o : EventOutcome} (h : st.phase = .resolved o) (sig : RunSignal) :
    st.step cfg sig = st := by
  obtain ⟨phase, settled, ledger⟩ := st
  subst h
  cases sig <;> rfl

/-- What the state after the signals `t` says about them: while racing, nothing has ended
the race and the kept `waitUntil` status is that of the first wait to end; while
finishing, no wait has ended and, on the flag's path, the handler won the race; once
resolved, the outcome is `runOutcome` of what every continuation of `t` shows. -/
def Reads (cfg : RunConfig) (t : List RunSignal) (st : RunState) : Prop :=
  match st.phase with
  | .racing => cfg.noWaitForWaitUntil = true ∧ t.findSome? RunSignal.raceWinner? = none ∧
      t.findSome? RunSignal.finishResult? = st.settled.map (.completed, ·)
  | .finishing => t.findSome? RunSignal.finishResult? = none ∧
      (cfg.noWaitForWaitUntil = false ∨
        cfg.isServiceWorkerHandler = true ∧ t.findSome? RunSignal.raceWinner? = some .handlerDone)
  | .resolved o => ∀ t', runOutcome cfg.noWaitForWaitUntil (cfg.observe (t ++ t')) = o

theorem reads_init (cfg : RunConfig) : (init cfg).Reads cfg [] := by
  cases hf : cfg.noWaitForWaitUntil <;> simp [init, Reads, hf]

theorem Reads.step (h : st.Reads cfg t) (sig : RunSignal) : (st.step cfg sig).Reads cfg (t ++ [sig]) := by
  obtain ⟨phase, settled, ledger⟩ := st
  cases phase with
  | resolved o =>
    rw [step_of_resolved rfl]
    intro t'
    simpa using h ([sig] ++ t')
  | racing =>
    obtain ⟨hf, hr, hs⟩ := h
    dsimp only [step]
    match sig with
    | .call _ => simp [Reads, List.findSome?_append, hr, hs, hf]
    | .waitUntilSettled _ => cases settled <;> simp [Reads, List.findSome?_append, hr, hs, hf]
    | .handlerSettled true =>
      cases hsw : cfg.isServiceWorkerHandler <;> cases settled <;>
        simp [Reads, resolve, hsw, RunConfig.observe, List.findSome?_append, hr, hs, hf, runOutcome,
          raceOutcome, finishedOutcome]
    | .handlerSettled false | .timeLimit | .abort =>
      simp [Reads, resolve, RunConfig.observe, List.findSome?_append, hr, hs, hf, runOutcome, raceOutcome]
  | finishing =>
    obtain ⟨hn, hp⟩ := h
    dsimp only [step]
    match sig with
    | .call _ =>
      simp only [Reads, List.findSome?_append, hn]
      simpa using hp
    | .handlerSettled _ =>
      simp only [Reads, List.findSome?_append, hn]
      exact ⟨rfl, hp.imp id fun h => ⟨h.1, by simp [h.2]⟩⟩
    | .waitUntilSettled _ | .timeLimit | .abort =>
      intro t'
      rcases hp with hp | ⟨hsw, hr⟩
      · simp [resolve, hp, RunConfig.observe, List.findSome?_append, hn, runOutcome, finishedOutcome]
      · simp [resolve, hsw, RunConfig.observe, List.findSome?_append, hn, hr, runOutcome, finishedOutcome,
          raceOutcome]

end RunState

theorem runSignals_append (cfg : RunConfig) (t t' : List RunSignal) :
    runSignals cfg (t ++ t') = t'.foldl (RunState.step cfg) (runSignals cfg t) :=
  List.foldl_append _ _ _ _

theorem reads_runSignals (cfg : RunConfig) (t : List RunSignal) : (runSignals cfg t).Reads cfg t := by
  induction t using List.reverseRecOn with
  | nil => exact RunState.reads_init cfg
  | append_singleton t sig ih => rw [runSignals_append]; exact ih.step sig

section Report

variable {cfg : RunConfig} {t : List RunSignal}

/-- `run` returns `runOutcome` of what the signals show it: the first signal the race
takes and the first end of `finishScheduled`'s wait decide the outcome. -/
theorem runReport_outcome {o : EventOutcome} {L : QueueEventResult} (h : runReport cfg t = some (o, L)) :
    o = runOutcome cfg.noWaitForWaitUntil (cfg.observe t) := by
  have hr := reads_runSignals cfg t
  unfold RunState.Reads at hr
  rw [(RunState.report_eq_some.mp h).1] at hr
  simpa using (hr []).symm

end Report

theorem runReport_outcome_ack :
    runReport ⟨true, false, none⟩ [.call (.message "a" .ack), .handlerSettled true, .call (.message "b" .ack)] =
        some (.ok, runCalls [.message "a" .ack] {}) ∧
      EventOutcome.ok = runOutcome true (RunConfig.observe ⟨true, false, none⟩
        [.call (.message "a" .ack), .handlerSettled true, .call (.message "b" .ack)]) := by
  have h : runReport ⟨true, false, none⟩
      [.call (.message "a" .ack), .handlerSettled true, .call (.message "b" .ack)] =
      some (.ok, runCalls [.message "a" .ack] {}) := rfl
  exact ⟨h, runReport_outcome h⟩

section Deliver

variable {V : Type} (h : Host V) (cfg : RunConfig)
  (worker : Except JsgError (QueueEvent V) → List RunSignal)

def deliverLocal (p : QueueEventParams) : Option (EventOutcome × QueueEventResult) :=
  runReport cfg (worker (QueueEvent.ofParams h p))

/-- Delivery over RPC: the consumer runs on the event it reads from `sendRpc`'s request
and answers with its ledger and outcome, which `sendRpc`'s handler writes into the
sender's fresh result. -/
def deliverRemote (p : QueueEventParams) : Option (QueueEventResult × EventOutcome) :=
  (runReport cfg (worker (QueueEvent.ofReader h (queueRequest (.params p))))).bind fun r =>
    handleQueueResponse (toWire r.2 r.1) {}

/-- Where no message's content type is the empty string and every text body is ASCII,
delivery over RPC reports the outcome and the ledger of local delivery, for every worker
and every run. -/
theorem deliverRemote_eq_local (hascii : h.AsciiAgrees) {p : QueueEventParams}
    (hp : ∀ m ∈ p.messages,
      m.contentType ≠ some "" ∧ (m.contentType = some "text" → ∀ x ∈ m.body, x < 128)) :
    deliverRemote h cfg worker p = (deliverLocal h cfg worker p).map Prod.swap := by
  rw [deliverRemote, deliverLocal, ofReader_queueRequest h hascii hp]
  cases runReport cfg (worker (QueueEvent.ofParams h p)) with
  | none => rfl
  | some r =>
    obtain ⟨o, ⟨retry, delay⟩, ackAll, retries, explicitAcks⟩ := r
    rw [Option.some_bind, handleQueueResponse_toWire]
    cases delay <;> rfl

end Deliver

theorem deliverRemote_eq_local_ack :
    sampleHost.AsciiAgrees ∧
      (∀ m ∈ [(⟨"m", 7, [104, 105], some "text", 1⟩ : IncomingQueueMessage)],
        m.contentType ≠ some "" ∧ (m.contentType = some "text" → ∀ x ∈ m.body, x < 128)) ∧
      deliverRemote sampleHost ⟨true, false, none⟩
          (fun | .ok e => e.messages.map (fun m => .call (.message m.id .ack)) ++ [.handlerSettled true]
               | .error _ => [.handlerSettled false])
          ⟨"q", [⟨"m", 7, [104, 105], some "text", 1⟩]⟩ =
        (deliverLocal sampleHost ⟨true, false, none⟩
          (fun | .ok e => e.messages.map (fun m => .call (.message m.id .ack)) ++ [.handlerSettled true]
               | .error _ => [.handlerSettled false])
          ⟨"q", [⟨"m", 7, [104, 105], some "text", 1⟩]⟩).map Prod.swap :=
  ⟨sampleHost_asciiAgrees, by decide, deliverRemote_eq_local sampleHost _ _ sampleHost_asciiAgrees (by decide)⟩

end WorkerdQueue
