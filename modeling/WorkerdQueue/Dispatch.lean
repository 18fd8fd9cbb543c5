import WorkerdQueue.Rpc

/-! Delivering a queue event to the worker. `startQueueEvent` builds the event
and finds the code that handles it; `run` then waits on that code, the time
limit and an abort, and reports an outcome, given here as a function of what it
saw. -/

namespace WorkerdQueue

inductive QueueEntrypoint
  | exported (hasQueue : Bool)
  | listeners (count : Nat)

inductive CompletionStatus
  | incomplete
  | completedSuccessfully
  | completedWithError (error : String)
deriving DecidableEq, Repr

structure StartQueueEventResponse (V : Type) where
  event : QueueEvent V
  status : CompletionStatus
  waitsOnHandler : Bool
  isServiceWorkerHandler : Bool

def missingHandler : QueueEntrypoint → Option (String × JsgError)
  | .exported true => none
  | .exported false =>
    some ("Received a QueueEvent but we lack a handler for QueueEvents. " ++
      "Did you remember to export a queue() function?",
      ⟨.error, "Handler does not export a queue() function."⟩)
  | .listeners count =>
    if count = 0 then
      some ("Received a QueueEvent but we lack an event listener for queue events. " ++
        "Did you remember to call addEventListener(\"queue\", ...)?",
        ⟨.error, "No event listener registered for queue messages."⟩)
    else none

section Start

variable {V : Type} (h : Host V)

def QueueEvent.ofQueueParams : QueueParams → Except JsgError (QueueEvent V)
  | .reader p => QueueEvent.ofReader h p
  | .params p => QueueEvent.ofParams h p

/-- `startQueueEvent`: the event is built first, then handed to the exported `queue`
method (its promise awaited by `run` or by `waitUntil`, as the compatibility flag says) or
dispatched to the listeners, which completes it at once. -/
def startQueueEvent (params : QueueParams) (entry : QueueEntrypoint) (noWaitForWaitUntil : Bool) :
    Except JsgError (StartQueueEventResponse V) :=
  (QueueEvent.ofQueueParams h params).bind fun event =>
    match missingHandler entry with
    | some (_, error) => .error error
    | none =>
      match entry with
      | .exported _ => .ok ⟨event, .incomplete, noWaitForWaitUntil, false⟩
      | .listeners _ => .ok ⟨event, .completedSuccessfully, false, true⟩

/-- `startQueueEvent` succeeds exactly when the event can be built and something handles
it: listeners complete the event at once, a `queue` method leaves it incomplete and its
promise is awaited by `run` when the flag is on. -/
theorem startQueueEvent_eq_ok {params : QueueParams} {entry : QueueEntrypoint} {flag : Bool}
    {r : StartQueueEventResponse V} :
    startQueueEvent h params entry flag = .ok r ↔
      QueueEvent.ofQueueParams h params = .ok r.event ∧ missingHandler entry = none ∧
        ((∃ n, entry = .listeners n) ∧ r.status = .completedSuccessfully ∧
            r.waitsOnHandler = false ∧ r.isServiceWorkerHandler = true ∨
          entry = .exported true ∧ r.status = .incomplete ∧ r.waitsOnHandler = flag ∧
            r.isServiceWorkerHandler = false) := by
  unfold startQueueEvent
  cases he : QueueEvent.ofQueueParams h params with
  | error e => simp [Except.bind]
  | ok event =>
    obtain ⟨revent, rstatus, rwaits, rsw⟩ := r
    cases entry with
    | exported q => cases q <;> simp [Except.bind, missingHandler, eq_comm, and_assoc]
    | listeners n =>
      by_cases hn : n = 0 <;> simp [Except.bind, missingHandler, hn, eq_comm, and_assoc]

theorem startQueueEvent_missing {params : QueueParams} {entry : QueueEntrypoint} {flag : Bool}
    {event : QueueEvent V} {warning : String} {error : JsgError}
    (he : QueueEvent.ofQueueParams h params = .ok event) (hm : missingHandler entry = some (warning, error)) :
    startQueueEvent h params entry flag = .error error := by
  simp [startQueueEvent, he, hm, Except.bind]

end Start

/-! ## The outcome `run` reports -/

inductive FinishScheduledResult
  | completed
  | aborted
  | timeout
deriving DecidableEq, Repr

inductive RaceWinner
  | handlerDone
  | handlerFailed
  | timeLimit
  | abort
deriving DecidableEq, Repr

structure RunObservation where
  race : RaceWinner
  isServiceWorkerHandler : Bool
  finishScheduled : FinishScheduledResult
  waitUntilStatus : EventOutcome
  limitsExceeded : Option EventOutcome

def raceOutcome : RaceWinner → EventOutcome
  | .handlerDone => .ok
  | .handlerFailed => .exception
  | .timeLimit => .exceededCpu
  | .abort => .exception

def finishedOutcome (finish : FinishScheduledResult) (waitUntilStatus : EventOutcome) : EventOutcome :=
  if finish = .completed then waitUntilStatus else .exceededCpu

/-- `QueueCustomEventImpl::run`'s result. With the flag on, a service-worker handler that
returned still waits for its `waitUntil` tasks, and exceeded limits override the outcome;
with it off, the outcome is that of the `waitUntil` tasks. -/
def runOutcome (noWaitForWaitUntil : Bool) (o : RunObservation) : EventOutcome :=
  if noWaitForWaitUntil then
    let outcome := raceOutcome o.race
    let outcome :=
      if outcome = .ok ∧ o.isServiceWorkerHandler then finishedOutcome o.finishScheduled o.waitUntilStatus
      else outcome
    o.limitsExceeded.getD outcome
  else finishedOutcome o.finishScheduled o.waitUntilStatus

theorem raceOutcome_eq_ok {w : RaceWinner} : raceOutcome w = .ok ↔ w = .handlerDone := by
  cases w <;> simp [raceOutcome]

theorem finishedOutcome_eq_ok {f : FinishScheduledResult} {s : EventOutcome} :
    finishedOutcome f s = .ok ↔ f = .completed ∧ s = .ok := by
  unfold finishedOutcome
  split <;> simp_all

/-- `run` reports success only when the handler's work finished: with the flag on, the
handler won the race, no limit was exceeded (or the limit reports success) and a
service-worker handler's `waitUntil` tasks completed successfully; with it off, the
`waitUntil` tasks completed successfully. -/
theorem runOutcome_eq_ok (flag : Bool) (o : RunObservation) :
    runOutcome flag o = .ok ↔
      if flag then
        o.limitsExceeded = some .ok ∨
          (o.limitsExceeded = none ∧ o.race = .handlerDone ∧
            (o.isServiceWorkerHandler = true → o.finishScheduled = .completed ∧ o.waitUntilStatus = .ok))
      else o.finishScheduled = .completed ∧ o.waitUntilStatus = .ok := by
  cases flag with
  | false => exact finishedOutcome_eq_ok
  | true =>
    cases hl : o.limitsExceeded with
    | some s => simp [runOutcome, hl]
    | none =>
      cases hsw : o.isServiceWorkerHandler <;> by_cases hr : o.race = .handlerDone <;>
        simp [runOutcome, hl, hsw, hr, raceOutcome_eq_ok, finishedOutcome_eq_ok]

def completionStatusText : Option CompletionStatus → String
  | none => "Empty"
  | some .incomplete => "Incomplete"
  | some .completedSuccessfully => "Completed Succesfully"
  | some (.completedWithError error) => "Completed with error:" ++ error

end WorkerdQueue
