import WorkerdQueue.Table
import WorkerdQueue.Encoding

/-! The ledger a queue handler fills in. `QueueMessage::ack` and `retry` decide
for one message, `QueueEvent::ackAll` and `retryAll` for the whole batch; all
four write the one `QueueEventResult` the event shares with its messages. A
call that comes after a conflicting decision logs a warning and changes
nothing, so the first decision stands. -/

namespace WorkerdQueue

structure QueueRetryOptions where
  delaySeconds : Option CInt := none

structure QueueRetryDelay where
  delaySeconds : Option CInt := none
deriving DecidableEq, Repr

structure QueueRetryBatch where
  retry : Bool := false
  delaySeconds : Option CInt := none
deriving DecidableEq, Repr

structure QueueEventResult where
  retryBatch : QueueRetryBatch := {}
  ackAll : Bool := false
  retries : IdMap QueueRetryDelay := ∅
  explicitAcks : IdSet := ∅

def retryEntry (options : Option QueueRetryOptions) : QueueRetryDelay :=
  match options.bind (·.delaySeconds) with
  | some secs => { delaySeconds := some secs }
  | none => {}

/-- `QueueMessage::retry` on the message `id`: the ledger after the call, and the warning
it logs when the call has no effect. -/
def QueueMessage.retry (id : String) (options : Option QueueRetryOptions)
    (result : QueueEventResult) : QueueEventResult × Option String :=
  if result.ackAll then
    (result, some ("Received a call to retry() on message " ++ id ++
      " after ackAll() was already called. " ++
      "Calling retry() on a message after calling ackAll() has no effect."))
  else if result.explicitAcks.contains id then
    (result, some ("Received a call to retry() on message " ++ id ++
      " after ack() was already called. " ++
      "Calling retry() on a message after calling ack() has no effect."))
  else ({ result with retries := result.retries.upsert id (retryEntry options) }, none)

def QueueMessage.ack (id : String) (result : QueueEventResult) : QueueEventResult × Option String :=
  if result.ackAll then (result, none)
  else if result.retryBatch.retry then
    (result, some ("Received a call to ack() on message " ++ id ++
      " after retryAll() was already called. " ++
      "Calling ack() on a message after calling retryAll() has no effect."))
  else if (result.retries.find id).isSome then
    (result, some ("Received a call to ack() on message " ++ id ++
      " after retry() was already called. " ++
      "Calling ack() on a message after calling retry() has no effect."))
  else ({ result with explicitAcks := result.explicitAcks.findOrCreate id }, none)

/-- `QueueEvent::retryAll`: a given delay replaces the batch delay; without one the
earlier delay stays. -/
def QueueEvent.retryAll (options : Option QueueRetryOptions) (result : QueueEventResult) :
    QueueEventResult × Option String :=
  if result.ackAll then
    (result, some ("Received a call to retryAll() after ackAll() was already called. " ++
      "Calling retryAll() after calling ackAll() has no effect."))
  else
    ({ result with
        retryBatch :=
          { retry := true
            delaySeconds :=
              match options.bind (·.delaySeconds) with
              | some secs => some secs
              | none => result.retryBatch.delaySeconds } }, none)

def QueueEvent.ackAll (result : QueueEventResult) : QueueEventResult × Option String :=
  if result.retryBatch.retry then
    (result, some ("Received a call to ackAll() after retryAll() was already called. " ++
      "Calling ackAll() after calling retryAll() has no effect."))
  else ({ result with ackAll := true }, none)

inductive MessageCall
  | ack
  | retry (options : Option QueueRetryOptions)

inductive LedgerCall
  | message (id : String) (call : MessageCall)
  | ackAll
  | retryAll (options : Option QueueRetryOptions)

def MessageCall.run (id : String) : MessageCall → QueueEventResult → QueueEventResult × Option String
  | .ack => QueueMessage.ack id
  | .retry options => QueueMessage.retry id options

def LedgerCall.run : LedgerCall → QueueEventResult → QueueEventResult × Option String
  | .message id call => call.run id
  | .ackAll => QueueEvent.ackAll
  | .retryAll options => QueueEvent.retryAll options

def LedgerCall.apply (c : LedgerCall) (s : QueueEventResult) : QueueEventResult := (c.run s).1

def runCalls (calls : List LedgerCall) (s : QueueEventResult) : QueueEventResult :=
  calls.foldl (fun s c => c.apply s) s

@[simp] theorem runCalls_nil (s : QueueEventResult) : runCalls [] s = s := rfl

@[simp] theorem runCalls_cons (c : LedgerCall) (calls : List LedgerCall) (s : QueueEventResult) :
    runCalls (c :: calls) s = runCalls calls (c.apply s) := rfl

section Step

variable {s : QueueEventResult}

theorem apply_retry (id : String) (options : Option QueueRetryOptions) (s : QueueEventResult) :
    (LedgerCall.message id (.retry options)).apply s =
      if s.ackAll = false ∧ id ∉ s.explicitAcks.ids then
        { s with retries := s.retries.upsert id (retryEntry options) }
      else s := by
  simp only [LedgerCall.apply, LedgerCall.run, MessageCall.run, QueueMessage.retry]
  by_cases ha : s.ackAll <;> by_cases hi : id ∈ s.explicitAcks.ids <;> simp [ha, hi]

theorem apply_ack (id : String) (s : QueueEventResult) :
    (LedgerCall.message id .ack).apply s =
      if s.ackAll = false ∧ s.retryBatch.retry = false ∧ s.retries.find id = none then
        { s with explicitAcks := s.explicitAcks.findOrCreate id }
      else s := by
  simp only [LedgerCall.apply, LedgerCall.run, MessageCall.run, QueueMessage.ack]
  by_cases ha : s.ackAll <;> by_cases hr : s.retryBatch.retry <;>
    cases hf : s.retries.find id <;> simp [ha, hr, hf]

theorem apply_ackAll (s : QueueEventResult) :
    LedgerCall.ackAll.apply s = if s.retryBatch.retry then s else { s with ackAll := true } := by
  simp only [LedgerCall.apply, LedgerCall.run, QueueEvent.ackAll]
  split <;> rfl

theorem apply_retryAll (options : Option QueueRetryOptions) (s : QueueEventResult) :
    (LedgerCall.retryAll options).apply s =
      if s.ackAll then s
      else { s with retryBatch := ⟨true, (options.bind (·.delaySeconds)).or s.retryBatch.delaySeconds⟩ } := by
  simp only [LedgerCall.apply, LedgerCall.run, QueueEvent.retryAll]
  split
  · rfl
  · cases options.bind (·.delaySeconds) <;> rfl

theorem apply_of_ackAll (c : LedgerCall) (h : s.ackAll = true) : c.apply s = s := by
  cases c with
  | message id call =>
    cases call
    · simp [apply_ack, h]
    · simp [apply_retry, h]
  | ackAll =>
    rw [apply_ackAll]
    split
    · rfl
    · cases s; simp_all
  | retryAll options => simp [apply_retryAll, h]

@[simp] theorem message_apply_ackAll (id : String) (call : MessageCall) :
    ((LedgerCall.message id call).apply s).ackAll = s.ackAll := by
  cases call
  · rw [apply_ack]; split <;> rfl
  · rw [apply_retry]; split <;> rfl

@[simp] theorem message_apply_retryBatch (id : String) (call : MessageCall) :
    ((LedgerCall.message id call).apply s).retryBatch = s.retryBatch := by
  cases call
  · rw [apply_ack]; split <;> rfl
  · rw [apply_retry]; split <;> rfl

theorem acks_subset_apply (c : LedgerCall) {x : String} (hx : x ∈ s.explicitAcks.ids) :
    x ∈ (c.apply s).explicitAcks.ids := by
  cases c with
  | message id call =>
    cases call
    · rw [apply_ack]; split
      · exact IdSet.mem_findOrCreate.mpr (.inl hx)
      · exact hx
    · rw [apply_retry]; split <;> exact hx
  | ackAll => rw [apply_ackAll]; split <;> exact hx
  | retryAll options => rw [apply_retryAll]; split <;> exact hx

theorem keys_subset_apply (c : LedgerCall) {x : String} (hx : x ∈ s.retries.keys) :
    x ∈ (c.apply s).retries.keys := by
  cases c with
  | message id call =>
    cases call
    · rw [apply_ack]; split <;> exact hx
    · rw [apply_retry]; split
      · exact IdMap.mem_keys_upsert.mpr (.inl hx)
      · exact hx
  | ackAll => rw [apply_ackAll]; split <;> exact hx
  | retryAll options => rw [apply_retryAll]; split <;> exact hx

theorem apply_of_retry (c : LedgerCall) (hr : s.retryBatch.retry = true) (ha : s.ackAll = false) :
    (c.apply s).retryBatch.retry = true ∧ (c.apply s).ackAll = false ∧
      (c.apply s).explicitAcks = s.explicitAcks := by
  cases c with
  | message id call =>
    refine ⟨by simp [hr], by simp [ha], ?_⟩
    cases call
    · simp [apply_ack, hr]
    · rw [apply_retry]; split <;> rfl
  | ackAll => simp [apply_ackAll, hr, ha]
  | retryAll options => simp [apply_retryAll, ha]

end Step

/-- What holds of every ledger the calls reach: the two batch decisions exclude each
other, and no message is both acked and retried. -/
structure LedgerInv (s : QueueEventResult) : Prop where
  exclusive : ¬(s.ackAll = true ∧ s.retryBatch.retry = true)
  disjoint : ∀ id ∈ s.explicitAcks.ids, id ∉ s.retries.keys

section Inv

variable {s : QueueEventResult}

theorem exclusive_apply (c : LedgerCall) (hs : ¬(s.ackAll = true ∧ s.retryBatch.retry = true)) :
    ¬((c.apply s).ackAll = true ∧ (c.apply s).retryBatch.retry = true) := by
  cases c with
  | message id call => simpa using hs
  | ackAll => rw [apply_ackAll]; split <;> simp_all
  | retryAll options => rw [apply_retryAll]; split <;> simp_all

theorem disjoint_apply (c : LedgerCall) (hs : ∀ id ∈ s.explicitAcks.ids, id ∉ s.retries.keys) :
    ∀ id ∈ (c.apply s).explicitAcks.ids, id ∉ (c.apply s).retries.keys := by
  cases c with
  | message id call =>
    cases call
    · rw [apply_ack]
      split
      · rename_i hg
        intro x hx
        rcases IdSet.mem_findOrCreate.mp hx with hx | rfl
        · exact hs x hx
        · exact IdMap.find_eq_none.mp hg.2.2
      · exact hs
    · rw [apply_retry]
      split
      · rename_i hg
        intro x hx hk
        rcases IdMap.mem_keys_upsert.mp hk with hk | rfl
        · exact hs x hx hk
        · exact hg.2 hx
      · exact hs
  | ackAll => rw [apply_ackAll]; split <;> exact hs
  | retryAll options => rw [apply_retryAll]; split <;> exact hs

theorem LedgerInv.apply (hs : LedgerInv s) (c : LedgerCall) : LedgerInv (c.apply s) :=
  ⟨exclusive_apply c hs.exclusive, disjoint_apply c hs.disjoint⟩

theorem LedgerInv.runCalls (hs : LedgerInv s) (calls : List LedgerCall) :
    LedgerInv (runCalls calls s) := by
  induction calls generalizing s with
  | nil => exact hs
  | cons c rest ih => exact ih (hs.apply c)

end Inv

/-- Every ledger a handler's calls reach from the empty one keeps `ackAll` and
`retryAll` apart and no id both acked and retried. -/
theorem runCalls_empty_inv (calls : List LedgerCall) : LedgerInv (runCalls calls {}) :=
  LedgerInv.runCalls ⟨by decide, by simp⟩ calls

/-- A later ledger `s'` keeps every decision recorded in `s`. -/
structure Sticky (s s' : QueueEventResult) : Prop where
  frozen : s.ackAll = true → s' = s
  retryKept : s.retryBatch.retry = true →
    s'.retryBatch.retry = true ∧ s'.ackAll = false ∧ s'.explicitAcks = s.explicitAcks
  ackAllKept : s.ackAll = true → s'.ackAll = true
  acksKept : ∀ id ∈ s.explicitAcks.ids, id ∈ s'.explicitAcks.ids
  retriesKept : ∀ id ∈ s.retries.keys, id ∈ s'.retries.keys

theorem Sticky.refl {s : QueueEventResult} (hs : ¬(s.ackAll = true ∧ s.retryBatch.retry = true)) :
    Sticky s s :=
  ⟨fun _ => rfl, fun h => ⟨h, by simpa [h] using hs, rfl⟩, id, fun _ => id, fun _ => id⟩

theorem Sticky.trans {s s' s'' : QueueEventResult} (h₁ : Sticky s s') (h₂ : Sticky s' s'') :
    Sticky s s'' where
  frozen ha := (h₂.frozen (h₁.ackAllKept ha)).trans (h₁.frozen ha)
  retryKept hr := by
    obtain ⟨hr', ha', he'⟩ := h₁.retryKept hr
    obtain ⟨hr'', ha'', he''⟩ := h₂.retryKept hr'
    exact ⟨hr'', ha'', he''.trans he'⟩
  ackAllKept ha := h₂.ackAllKept (h₁.ackAllKept ha)
  acksKept id h := h₂.acksKept id (h₁.acksKept id h)
  retriesKept id h := h₂.retriesKept id (h₁.retriesKept id h)

theorem sticky_apply {s : QueueEventResult} (c : LedgerCall)
    (hs : ¬(s.ackAll = true ∧ s.retryBatch.retry = true)) : Sticky s (c.apply s) where
  frozen := apply_of_ackAll c
  retryKept hr := apply_of_retry c hr (by simpa [hr] using hs)
  ackAllKept ha := by rw [apply_of_ackAll c ha]; exact ha
  acksKept _ := acks_subset_apply c
  retriesKept _ := keys_subset_apply c

theorem Sticky.runCalls {s : QueueEventResult} (hs : ¬(s.ackAll = true ∧ s.retryBatch.retry = true))
    (calls : List LedgerCall) : Sticky s (runCalls calls s) := by
  induction calls generalizing s with
  | nil => exact Sticky.refl hs
  | cons c rest ih => exact (sticky_apply c hs).trans (ih (exclusive_apply c hs))

/-- From every ledger where `ackAll` and `retryAll` are not both recorded (every
reachable one), each call and each run keeps every decision already made. -/
theorem decisions_sticky (s : QueueEventResult) (hs : ¬(s.ackAll = true ∧ s.retryBatch.retry = true)) :
    (∀ c : LedgerCall, Sticky s (c.apply s)) ∧ ∀ calls, Sticky s (runCalls calls s) :=
  ⟨fun c => sticky_apply c hs, Sticky.runCalls hs⟩

/-- On every ledger a run reaches from the fresh one, each further call and each further
run keeps every decision already made. -/
theorem decisions_sticky_reachable (pre : List LedgerCall) :
    (∀ c : LedgerCall, Sticky (runCalls pre {}) (c.apply (runCalls pre {}))) ∧
      ∀ calls, Sticky (runCalls pre {}) (runCalls calls (runCalls pre {})) :=
  decisions_sticky _ (LedgerInv.runCalls ⟨by decide, by simp⟩ pre).exclusive

theorem apply_apply_of_guarded (c : LedgerCall) {g : QueueEventResult → Prop} [DecidablePred g]
    {u : QueueEventResult → QueueEventResult} (hc : ∀ s, c.apply s = if g s then u s else s)
    (hg : ∀ s, g s → g (u s)) (hu : ∀ s, g s → u (u s) = u s) (s : QueueEventResult) :
    c.apply (c.apply s) = c.apply s := by
  rw [hc s]
  split <;> rename_i h
  · rw [hc, if_pos (hg s h), hu s h]
  · rw [hc, if_neg h]

/-- Every ledger call is idempotent: made twice on any ledger, it leaves exactly the
ledger it leaves when made once. -/
theorem ledger_call_idempotent (c : LedgerCall) (s : QueueEventResult) :
    c.apply (c.apply s) = c.apply s := by
  rcases c with ⟨id, _ | options⟩ | _ | options
  · exact apply_apply_of_guarded _ (apply_ack id) (fun _ hg => hg)
      (fun _ _ => by rw [IdSet.findOrCreate_findOrCreate]) s
  · exact apply_apply_of_guarded _ (apply_retry id options) (fun _ hg => hg)
      (fun _ _ => by rw [IdMap.upsert_upsert]) s
  · exact apply_apply_of_guarded _ (fun s => (apply_ackAll s).trans (ite_not _ _ _).symm)
      (fun _ hg => hg) (fun _ _ => rfl) s
  · exact apply_apply_of_guarded _ (fun s => (apply_retryAll options s).trans (ite_not _ _ _).symm)
      (fun _ hg => hg) (fun _ _ => by rw [← Option.or_assoc, Option.or_self]) s

end WorkerdQueue
