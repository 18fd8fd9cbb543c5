import WorkerdQueue.Ledger

/-! A queue event across the RPC boundary. `sendRpc` writes the event's
parameters into a capnp request and the `QueueEvent(Reader)` constructor reads
them back on the other side; the response carries the consumer's ledger back,
and the response handler writes it into the sender's result. A capnp text
field cannot be absent, so an unset content type arrives as the empty string. -/

namespace WorkerdQueue

def unixEpoch : Int := 0

def nanoseconds : Int := 1

structure IncomingQueueMessage where
  id : String
  timestamp : Int
  body : List UInt8
  contentType : Option String := none
  attempts : UInt16

structure QueueEventParams where
  queueName : String
  messages : List IncomingQueueMessage

structure RpcQueueParams where
  queueName : String
  messages : List RpcQueueMessage

inductive QueueParams
  | reader (p : RpcQueueParams)
  | params (p : QueueEventParams)

structure QueueMessage (V : Type) where
  id : String
  timestamp : Int
  body : V
  attempts : UInt16

structure QueueEvent (V : Type) where
  queueName : String
  messages : List (QueueMessage V)

section Construct

variable {V : Type} (h : Host V)

def QueueMessage.ofReader (message : RpcQueueMessage) : Except JsgError (QueueMessage V) :=
  (fun body =>
    { id := message.id, timestamp := message.timestampNs * nanoseconds + unixEpoch, body,
      attempts := message.attempts }) <$> deserializeRpc h message

def QueueMessage.ofIncoming (message : IncomingQueueMessage) : Except JsgError (QueueMessage V) :=
  (fun body => { id := message.id, timestamp := message.timestamp, body, attempts := message.attempts }) <$>
    deserialize h message.body message.contentType

def QueueEvent.ofReader (params : RpcQueueParams) : Except JsgError (QueueEvent V) :=
  (fun messages => ⟨params.queueName, messages⟩) <$> params.messages.mapM (QueueMessage.ofReader h)

def QueueEvent.ofParams (params : QueueEventParams) : Except JsgError (QueueEvent V) :=
  (fun messages => ⟨params.queueName, messages⟩) <$> params.messages.mapM (QueueMessage.ofIncoming h)

end Construct

def marshalMessage (message : IncomingQueueMessage) : RpcQueueMessage :=
  { id := message.id
    timestampNs := (message.timestamp - unixEpoch) / nanoseconds
    data := message.body
    contentType := message.contentType.getD ""
    attempts := message.attempts }

def queueRequest : QueueParams → RpcQueueParams
  | .reader p => p
  | .params p => ⟨p.queueName, p.messages.map marshalMessage⟩

inductive EventOutcome
  | ok
  | exception
  | exceededCpu
  | other (value : Nat)
deriving DecidableEq, Repr

structure QueueRetryMessage where
  msgId : String
  delaySeconds : Option CInt
deriving DecidableEq, Repr

structure RpcRetryBatch where
  retry : Bool
  delaySeconds : Option CInt
deriving DecidableEq, Repr

structure RpcQueueResult where
  outcome : EventOutcome
  ackAll : Bool
  retryBatch : RpcRetryBatch
  explicitAcks : List String
  retryMessages : List QueueRetryMessage
deriving DecidableEq, Repr

def getRetryMessages (result : QueueEventResult) : List QueueRetryMessage :=
  result.retries.entries.map fun entry => ⟨entry.1, entry.2.delaySeconds⟩

def getExplicitAcks (result : QueueEventResult) : List String :=
  result.explicitAcks.ids

/-- Modelled from the spec: `toWire(ledger, outcome)`, the response the consumer's side
fills from its ledger (that code is not under src/). -/
def toWire (result : QueueEventResult) (outcome : EventOutcome) : RpcQueueResult :=
  { outcome
    ackAll := result.ackAll
    retryBatch := ⟨result.retryBatch.retry, result.retryBatch.delaySeconds⟩
    explicitAcks := getExplicitAcks result
    retryMessages := getRetryMessages result }

def wireRetryEntry (retry : QueueRetryMessage) : String × QueueRetryDelay :=
  (retry.msgId,
    match retry.delaySeconds with
    | some secs => { delaySeconds := some secs }
    | none => {})

/-- The response handler of `sendRpc`: the flags are copied, the batch delay only when the
response carries one, and both tables are cleared and refilled. A duplicate id makes
`insert` throw, which is `none`. -/
def handleQueueResponse (resp : RpcQueueResult) (result : QueueEventResult) :
    Option (QueueEventResult × EventOutcome) :=
  (fun explicitAcks =>
    ({ ackAll := resp.ackAll
       retryBatch :=
         { retry := resp.retryBatch.retry
           delaySeconds :=
             match resp.retryBatch.delaySeconds with
             | some secs => some secs
             | none => result.retryBatch.delaySeconds }
       retries := (∅ : IdMap QueueRetryDelay).upsertAll (resp.retryMessages.map wireRetryEntry)
       explicitAcks }, resp.outcome)) <$>
    (∅ : IdSet).insertAll resp.explicitAcks

theorem wireRetryEntry_entry (entry : String × QueueRetryDelay) :
    wireRetryEntry ⟨entry.1, entry.2.delaySeconds⟩ = entry := by
  obtain ⟨id, ⟨_ | secs⟩⟩ := entry <;> rfl

theorem getRetryMessages_wireRetryEntry (result : QueueEventResult) :
    (getRetryMessages result).map wireRetryEntry = result.retries.entries := by
  simp [getRetryMessages, Function.comp_def, wireRetryEntry_entry]

theorem handleQueueResponse_toWire (L P : QueueEventResult) (outcome : EventOutcome) :
    handleQueueResponse (toWire L outcome) P =
      some ({ L with
        retryBatch := { L.retryBatch with
          delaySeconds := L.retryBatch.delaySeconds.or P.retryBatch.delaySeconds } }, outcome) := by
  obtain ⟨hn, ha⟩ := IdSet.insertAll_eq_some (s := ∅) L.explicitAcks.nodup (by simp)
  have hr : (∅ : IdMap QueueRetryDelay).upsertAll ((getRetryMessages L).map wireRetryEntry) =
      L.retries := by
    ext1
    rw [IdMap.upsertAll_entries] <;> simp [getRetryMessages_wireRetryEntry, L.retries.nodup, IdMap.keys]
  simp only [handleQueueResponse, toWire, getExplicitAcks, ha, hr]
  cases L.retryBatch.delaySeconds <;> rfl

/-- `sendRpc` writes the response into its own `QueueCustomEventImpl`'s result, which is
still the fresh one: the impl moves its params into the one `run` or `sendRpc` it serves.
There the exchange is a full snapshot: the receiver ends with the consumer's ledger, field
for field, and its outcome. -/
theorem response_replaces_fresh_result (L : QueueEventResult) (outcome : EventOutcome) :
    handleQueueResponse (toWire L outcome) {} = some (L, outcome) := by
  obtain ⟨⟨retry, delay⟩, ackAll, retries, explicitAcks⟩ := L
  rw [handleQueueResponse_toWire]
  cases delay <;> rfl

theorem wireRetryEntry_eq (retry : QueueRetryMessage) :
    wireRetryEntry retry = (retry.msgId, ⟨retry.delaySeconds⟩) := by
  unfold wireRetryEntry
  split <;> simp_all

theorem lookup_map_wireRetryEntry (retries : List QueueRetryMessage) (x : String) :
    (retries.map wireRetryEntry).lookup x =
      (retries.find? fun r => decide (r.msgId = x)).map fun r => ⟨r.delaySeconds⟩ := by
  induction retries with
  | nil => rfl
  | cons r rest ih =>
    rw [List.map_cons, wireRetryEntry_eq]
    by_cases hx : x = r.msgId
    · simp [List.lookup, hx]
    · have hb : (x == r.msgId) = false := beq_false_of_ne hx
      simp [List.lookup, hb, Ne.symm hx, ih]

/-- The response handler on any response: it throws exactly when the response names
an explicit ack twice. Otherwise it copies the flags and the acks in order, takes the
batch delay of the response or, when it carries none, keeps its own, and gives each
retried id the delay of the last retry message naming it. -/
theorem handleQueueResponse_spec (resp : RpcQueueResult) (P : QueueEventResult) :
    ((handleQueueResponse resp P).isSome ↔ resp.explicitAcks.Nodup) ∧
    ∀ R o, handleQueueResponse resp P = some (R, o) →
      o = resp.outcome ∧ R.ackAll = resp.ackAll ∧ R.retryBatch.retry = resp.retryBatch.retry ∧
      R.retryBatch.delaySeconds = resp.retryBatch.delaySeconds.or P.retryBatch.delaySeconds ∧
      R.explicitAcks.ids = resp.explicitAcks ∧
      ∀ x, R.retries.find x =
        (resp.retryMessages.reverse.find? fun r => decide (r.msgId = x)).map fun r => ⟨r.delaySeconds⟩ := by
  refine ⟨⟨fun h => ?_, fun hn => ?_⟩, fun R o h => ?_⟩
  · obtain ⟨t, ht⟩ := Option.isSome_iff_exists.mp (Option.isSome_map'.symm.trans h)
    simpa [IdSet.insertAll_ids ht] using t.nodup
  · obtain ⟨_, ha⟩ := IdSet.insertAll_eq_some (s := ∅) hn (by simp)
    simp [handleQueueResponse, ha]
  · obtain ⟨acks, ha, he⟩ := Option.map_eq_some'.mp h
    cases he
    refine ⟨rfl, rfl, rfl, ?_, by simp [IdSet.insertAll_ids ha], fun x => ?_⟩
    · cases resp.retryBatch.delaySeconds <;> rfl
    · rw [IdMap.find_upsertAll, IdMap.find_empty, Option.or_none, ← List.map_reverse,
        lookup_map_wireRetryEntry]

/-! ## The event across the boundary -/

theorem mapM_map_eq {α β γ : Type} {f : β → Except JsgError γ} {g : α → β}
    {f' : α → Except JsgError γ} {l : List α} (h : ∀ a ∈ l, f (g a) = f' a) :
    (l.map g).mapM f = l.mapM f' := by
  induction l with
  | nil => rfl
  | cons a l ih =>
    rw [List.map_cons, List.mapM_cons, List.mapM_cons, h a (List.mem_cons_self _ _),
      ih fun b hb => h b (List.mem_cons_of_mem _ hb)]

section Agree

variable {V : Type} (h : Host V)

theorem decodeAs_congr_text {str str' : List UInt8 → V} {type : String} {b : List UInt8}
    (hs : type = ContentType.text.name → str b = str' b) :
    decodeAs h str type b = decodeAs h str' type b := by
  unfold decodeAs
  split <;> rename_i ht
  · rw [hs (ContentType.ofName?_eq_some.mp ht)]
  all_goals rfl

theorem deserializeRpc_marshalMessage (hascii : h.AsciiAgrees) {m : IncomingQueueMessage}
    (hm : m.contentType ≠ some "") (ht : m.contentType = some "text" → ∀ x ∈ m.body, x < 128) :
    deserializeRpc h (marshalMessage m) = deserialize h m.body m.contentType := by
  cases hc : m.contentType with
  | none =>
    simp only [deserializeRpc, deserialize, marshalMessage, hc, Option.getD_none, if_true]
    exact decodeAs_congr_text h fun he => absurd he (by decide)
  | some c =>
    have hne : c ≠ "" := fun he => hm (he ▸ hc)
    simp only [deserializeRpc, deserialize, marshalMessage, hc, Option.getD_some, hne, if_false]
    exact decodeAs_congr_text h fun he => (hascii _ (ht (hc.trans (congrArg some he)))).symm

theorem ofReader_marshalMessage (hascii : h.AsciiAgrees) {m : IncomingQueueMessage}
    (hm : m.contentType ≠ some "") (ht : m.contentType = some "text" → ∀ x ∈ m.body, x < 128) :
    QueueMessage.ofReader h (marshalMessage m) = QueueMessage.ofIncoming h m := by
  simp only [QueueMessage.ofReader, QueueMessage.ofIncoming, deserializeRpc_marshalMessage h hascii hm ht]
  simp [marshalMessage, unixEpoch, nanoseconds]

theorem ofReader_queueRequest (hascii : h.AsciiAgrees) {p : QueueEventParams}
    (hp : ∀ m ∈ p.messages, m.contentType ≠ some "" ∧ (m.contentType = some "text" → ∀ x ∈ m.body, x < 128)) :
    QueueEvent.ofReader h (queueRequest (.params p)) = QueueEvent.ofParams h p := by
  simp only [QueueEvent.ofReader, QueueEvent.ofParams, queueRequest]
  rw [mapM_map_eq fun m hm => ofReader_marshalMessage h hascii (hp m hm).1 (hp m hm).2]

end Agree

end WorkerdQueue
