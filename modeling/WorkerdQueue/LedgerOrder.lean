import WorkerdQueue.Ledger

/-! The order of a handler's calls. A message call reads the batch flags and
what the ledger holds for its own id, and writes only that id's row, so calls
on different messages commute and any interleaving of per-message call
sequences reports the same ledger. What the ledger reports as a delay is
traced back to the calls that set it. -/

namespace WorkerdQueue

/-- Two ledgers that report the same thing: equal flags and batch delay, the same acked
ids as a set, the same retries as a map. -/
structure LedgerEquiv (s t : QueueEventResult) : Prop where
  ackAll : s.ackAll = t.ackAll
  retryBatch : s.retryBatch = t.retryBatch
  explicitAcks : ∀ id, id ∈ s.explicitAcks.ids ↔ id ∈ t.explicitAcks.ids
  retries : ∀ id, s.retries.find id = t.retries.find id

theorem LedgerEquiv.refl (s : QueueEventResult) : LedgerEquiv s s :=
  ⟨rfl, rfl, fun _ => Iff.rfl, fun _ => rfl⟩

theorem LedgerEquiv.symm {s t : QueueEventResult} (h : LedgerEquiv s t) : LedgerEquiv t s :=
  ⟨h.ackAll.symm, h.retryBatch.symm, fun id => (h.explicitAcks id).symm, fun id => (h.retries id).symm⟩

theorem LedgerEquiv.trans {s t u : QueueEventResult} (h₁ : LedgerEquiv s t) (h₂ : LedgerEquiv t u) :
    LedgerEquiv s u :=
  ⟨h₁.ackAll.trans h₂.ackAll, h₁.retryBatch.trans h₂.retryBatch,
    fun id => (h₁.explicitAcks id).trans (h₂.explicitAcks id), fun id => (h₁.retries id).trans (h₂.retries id)⟩

def messageView (s : QueueEventResult) (x : String) :
    Bool × QueueRetryBatch × Bool × Option QueueRetryDelay :=
  (s.ackAll, s.retryBatch, decide (x ∈ s.explicitAcks.ids), s.retries.find x)

theorem LedgerEquiv.of_views {s t : QueueEventResult} (h : ∀ x, messageView s x = messageView t x) :
    LedgerEquiv s t := by
  simp only [messageView, Prod.mk.injEq, decide_eq_decide] at h
  exact ⟨(h "").1, (h "").2.1, fun x => (h x).2.2.1, fun x => (h x).2.2.2⟩

section View

variable {s t : QueueEventResult} {x : String}

theorem messageView_apply_other {id : String} (call : MessageCall) (h : id ≠ x) :
    messageView ((LedgerCall.message id call).apply s) x = messageView s x := by
  cases call
  · rw [apply_ack]
    split
    · simp [messageView, IdSet.mem_findOrCreate, Ne.symm h]
    · rfl
  · rw [apply_retry]
    split
    · simp [messageView, IdMap.find_upsert, Ne.symm h]
    · rfl

theorem messageView_apply_congr (call : MessageCall) (h : messageView s x = messageView t x) :
    messageView ((LedgerCall.message x call).apply s) x =
      messageView ((LedgerCall.message x call).apply t) x := by
  simp only [messageView, Prod.mk.injEq, decide_eq_decide] at h
  obtain ⟨ha, hr, hm, hf⟩ := h
  cases call
  · simp only [apply_ack, ha, hr, hf]
    split <;> simp [messageView, IdSet.mem_findOrCreate, ha, hr, hf, hm]
  · simp only [apply_retry, ha, hm]
    split <;> simp [messageView, IdMap.find_upsert, ha, hr, hf, hm]

end View

def messageCalls (l : List (String × MessageCall)) : List LedgerCall :=
  l.map fun c => .message c.1 c.2

theorem messageView_runCalls_congr {l : List (String × MessageCall)} {s t : QueueEventResult}
    {x : String} (hl : ∀ c ∈ l, c.1 = x) (h : messageView s x = messageView t x) :
    messageView (runCalls (messageCalls l) s) x = messageView (runCalls (messageCalls l) t) x := by
  induction l generalizing s t with
  | nil => exact h
  | cons c rest ih =>
    obtain ⟨id, call⟩ := c
    obtain rfl : id = x := hl _ (List.mem_cons_self _ _)
    exact ih (fun c hc => hl c (List.mem_cons_of_mem _ hc)) (messageView_apply_congr call h)

theorem messageView_runCalls_filter (l : List (String × MessageCall)) (s : QueueEventResult)
    (x : String) :
    messageView (runCalls (messageCalls l) s) x =
      messageView (runCalls (messageCalls (l.filter (·.1 == x))) s) x := by
  induction l generalizing s with
  | nil => rfl
  | cons c rest ih =>
    obtain ⟨id, call⟩ := c
    rw [messageCalls, List.map_cons, runCalls_cons, ← messageCalls, ih]
    by_cases hx : id = x
    · subst hx
      simp [messageCalls]
    · have hf : ((id, call) :: rest).filter (·.1 == x) = rest.filter (·.1 == x) := by
        simp [List.filter_cons, hx]
      rw [hf]
      exact messageView_runCalls_congr (fun c hc => by simpa using (List.mem_filter.mp hc).2)
        (messageView_apply_other call hx)

/-- Calls on different messages commute, and every interleaving of per-message call
sequences (each message's own calls kept in order) reports the same ledger. -/
theorem message_calls_commute :
    (∀ (s : QueueEventResult) (a b : String) (p q : MessageCall), a ≠ b →
      LedgerEquiv ((LedgerCall.message b q).apply ((LedgerCall.message a p).apply s))
        ((LedgerCall.message a p).apply ((LedgerCall.message b q).apply s))) ∧
    ∀ (s : QueueEventResult) (l l' : List (String × MessageCall)),
      (∀ x, l.filter (·.1 == x) = l'.filter (·.1 == x)) →
      LedgerEquiv (runCalls (messageCalls l) s) (runCalls (messageCalls l') s) := by
  have interleave : ∀ (s : QueueEventResult) (l l' : List (String × MessageCall)),
      (∀ x, l.filter (·.1 == x) = l'.filter (·.1 == x)) →
      LedgerEquiv (runCalls (messageCalls l) s) (runCalls (messageCalls l') s) :=
    fun s l l' h => .of_views fun x => by
      rw [messageView_runCalls_filter l, messageView_runCalls_filter l', h]
  refine ⟨fun s a b p q hab => interleave s [(a, p), (b, q)] [(b, q), (a, p)] fun x => ?_, interleave⟩
  by_cases ha : a = x <;> by_cases hb : b = x
  · exact absurd (ha.trans hb.symm) hab
  all_goals simp only [List.filter_cons, List.filter_nil, beq_iff_eq, ha, hb, if_true, if_false]

theorem message_calls_commute_interleaved :
    ("a" ≠ "b" ∧
      LedgerEquiv ((LedgerCall.message "b" (.retry none)).apply ((LedgerCall.message "a" .ack).apply {}))
        ((LedgerCall.message "a" .ack).apply ((LedgerCall.message "b" (.retry none)).apply {}))) ∧
    (∀ x, [("a", MessageCall.ack), ("b", .retry none), ("a", .retry none)].filter (·.1 == x) =
        [("b", MessageCall.retry none), ("a", .ack), ("a", .retry none)].filter (·.1 == x)) ∧
      LedgerEquiv (runCalls (messageCalls [("a", .ack), ("b", .retry none), ("a", .retry none)]) {})
        (runCalls (messageCalls [("b", .retry none), ("a", .ack), ("a", .retry none)]) {}) := by
  have hab : ("a" : String) ≠ "b" := by decide
  refine ⟨⟨hab, message_calls_commute.1 {} _ _ _ _ hab⟩,
    (fun h => ⟨h, message_calls_commute.2 {} _ _ h⟩) fun x => ?_⟩
  by_cases ha : "a" = x <;> by_cases hb : "b" = x
  · exact absurd (ha.trans hb.symm) hab
  all_goals simp [List.filter_cons, ha, hb]

/-! ## Where a reported delay comes from -/

def effectiveRetry (id : String) (c : LedgerCall) (s : QueueEventResult) :
    Option (Option QueueRetryOptions) :=
  match c with
  | .message i (.retry options) =>
    if i = id ∧ s.ackAll = false ∧ i ∉ s.explicitAcks.ids then some options else none
  | _ => none

def lastRetry (id : String) : List LedgerCall → QueueEventResult → Option (Option QueueRetryOptions)
  | [], _ => none
  | c :: rest, s => (lastRetry id rest (c.apply s)).or (effectiveRetry id c s)

theorem find_apply (c : LedgerCall) (s : QueueEventResult) (id : String) :
    (c.apply s).retries.find id = ((effectiveRetry id c s).map retryEntry).or (s.retries.find id) := by
  cases c with
  | message i call =>
    cases call with
    | ack => rw [apply_ack]; split <;> rfl
    | retry options =>
      rw [apply_retry]
      by_cases hg : s.ackAll = false ∧ i ∉ s.explicitAcks.ids
      · by_cases hi : id = i
        · subst hi; simp [effectiveRetry, hg, IdMap.find_upsert]
        · simp [effectiveRetry, hg, IdMap.find_upsert, hi, Ne.symm hi]
      · simp [effectiveRetry, hg]
  | ackAll => rw [apply_ackAll]; split <;> rfl
  | retryAll options => rw [apply_retryAll]; split <;> rfl

/-- A retried message reports the delay of its last `retry` that was not ignored, and a
`retry` without a delay clears an earlier one. -/
theorem find_runCalls (calls : List LedgerCall) (s : QueueEventResult) (id : String) :
    (runCalls calls s).retries.find id = ((lastRetry id calls s).map retryEntry).or (s.retries.find id) := by
  induction calls generalizing s with
  | nil => simp [lastRetry]
  | cons c rest ih =>
    rw [runCalls_cons, ih, find_apply, lastRetry]
    cases lastRetry id rest (c.apply s) <;> simp

theorem retryEntry_delaySeconds (options : Option QueueRetryOptions) :
    (retryEntry options).delaySeconds = options.bind (·.delaySeconds) := by
  cases h : options.bind (·.delaySeconds) <;> simp [retryEntry, h]

theorem retries_delay_of_run (calls : List LedgerCall) {id : String} {e : QueueRetryDelay}
    (h : (runCalls calls {}).retries.find id = some e) :
    ∃ options, lastRetry id calls {} = some options ∧ e.delaySeconds = options.bind (·.delaySeconds) := by
  rw [find_runCalls, IdMap.find_empty, Option.or_none] at h
  obtain ⟨options, ho, rfl⟩ := Option.map_eq_some'.mp h
  exact ⟨options, ho, retryEntry_delaySeconds options⟩

def effectiveBatchDelay (c : LedgerCall) (s : QueueEventResult) : Option CInt :=
  match c with
  | .retryAll options => if s.ackAll = false then options.bind (·.delaySeconds) else none
  | _ => none

def lastBatchDelay : List LedgerCall → QueueEventResult → Option CInt
  | [], _ => none
  | c :: rest, s => (lastBatchDelay rest (c.apply s)).or (effectiveBatchDelay c s)

theorem batchDelay_apply (c : LedgerCall) (s : QueueEventResult) :
    (c.apply s).retryBatch.delaySeconds = (effectiveBatchDelay c s).or s.retryBatch.delaySeconds := by
  cases c with
  | message i call => simp [effectiveBatchDelay]
  | ackAll => rw [apply_ackAll]; split <;> rfl
  | retryAll options =>
    rw [apply_retryAll]
    cases ha : s.ackAll <;> simp [effectiveBatchDelay, ha]

/-- The batch delay is the last one a `retryAll` gave; a `retryAll` without a delay keeps
an earlier one. -/
theorem batchDelay_runCalls (calls : List LedgerCall) (s : QueueEventResult) :
    (runCalls calls s).retryBatch.delaySeconds =
      (lastBatchDelay calls s).or s.retryBatch.delaySeconds := by
  induction calls generalizing s with
  | nil => rfl
  | cons c rest ih =>
    rw [runCalls_cons, ih, batchDelay_apply, lastBatchDelay]
    cases lastBatchDelay rest (c.apply s) <;> simp

theorem retryAll_keeps_stale_delay :
    (runCalls [.retryAll (some { delaySeconds := some 30 }), .retryAll none] {}).retryBatch =
      { retry := true, delaySeconds := some 30 } := rfl

end WorkerdQueue
