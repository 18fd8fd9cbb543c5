import WorkerdQueue.SendAgreement
import WorkerdQueue.Json

/-! The body `sendBatch` writes, read back. Each message's object is a body
member and the optional members after it; the loop joins the objects with
commas inside `{"messages":[...]}`. A consumer that parses the text and reads
each entry gets the serialized items back in order, each labelled with the
format of its own encoder, and the headers carry the loop's totals. The same pieces bound the body's length by the buffer estimate. -/

namespace WorkerdQueue

open Json

def SerializedWithOptions.wire (item : SerializedWithOptions) :
    List UInt8 × Option (List Char) × Option Int :=
  (item.body.data, item.contentType.map (·.name.data), item.delaySeconds.map BitVec.toInt)

def readEntry : Json → Option (List UInt8 × Option (List Char) × Option Int)
  | .obj ms => do
    let body ← match ms.lookup "body".data with
      | some (.str s) => decodeBase64 s
      | _ => none
    let contentType ← match ms.lookup "contentType".data with
      | none => some none
      | some (.str t) => some (some t)
      | some _ => none
    let delay ← match ms.lookup "delaySecs".data with
      | none => some none
      | some (.num n) => some (some n)
      | some _ => none
    pure (body, contentType, delay)
  | _ => none

/-- A batch body as the broker reads it: one object whose only member is `messages`. -/
def readBatchBody (cs : List Char) : Option (List (List UInt8 × Option (List Char) × Option Int)) :=
  match parse cs with
  | some (.obj [(k, .arr entries)]) => if k = "messages".data then entries.mapM readEntry else none
  | _ => none

def contentTypeMembers : Option ContentType → List (List Char × Json)
  | some t => [("contentType".data, .str t.name.data)]
  | none => []

def delayMembers : Option CInt → List (List Char × Json)
  | some d => [("delaySecs".data, .num d.toInt)]
  | none => []

def entryJson (item : SerializedWithOptions) : Json :=
  .obj (("body".data, .str (encodeBase64 item.body.data)) ::
    contentTypeMembers item.contentType ++ delayMembers item.delaySeconds)

def delayText : Option CInt → List Char
  | some d => ",\"delaySecs\": ".data ++ decimalInt d.toInt
  | none => []

def contentTypeText : Option ContentType → List Char
  | some t => ",\"contentType\":\"".data ++ t.name.data ++ ['"']
  | none => []

theorem messageText_eq (item : SerializedWithOptions) :
    messageText item = '\x7b' :: '"' :: "body".data ++ '"' :: ':' ::
      ('"' :: encodeBase64 item.body.data ++ ['"']) ++
      (contentTypeText item.contentType ++ delayText item.delaySeconds ++ ['\x7d']) := by
  show "\x7b\"body\":\"".data ++ encodeBase64 item.body.data ++ ['"'] ++ contentTypeText item.contentType ++
    delayText item.delaySeconds ++ "\x7d".data = _
  simp only [List.append_assoc, List.cons_append, List.nil_append]

theorem encodeBase64_plain (bs : List UInt8) : ∀ c ∈ encodeBase64 bs, Plain c := by
  have ha : ∀ c ∈ base64Alphabet, Plain c := by decide
  intro c hc
  rcases encodeBase64_chars bs c hc with rfl | hc
  · decide
  · exact ha c hc

theorem name_plain (t : ContentType) : ∀ c ∈ t.name.data, Plain c := by
  cases t <;> decide

theorem delayText_tail (d : Option CInt) :
    MembersTail (delayText d ++ ['\x7d']) (delayMembers d) := by
  cases d with
  | none => exact .inl ⟨rfl, rfl⟩
  | some d =>
    refine .inr ⟨_, rfl, ?_⟩
    exact membersReadAs_cons (k := "delaySecs".data) (by decide) (readsAs_space (readsAs_num _))
      (.inl ⟨rfl, rfl⟩)

theorem optionalText_tail (t : Option ContentType) (d : Option CInt) :
    MembersTail (contentTypeText t ++ delayText d ++ ['\x7d'])
      (contentTypeMembers t ++ delayMembers d) := by
  cases t with
  | none => simpa [contentTypeText, contentTypeMembers] using delayText_tail d
  | some t =>
    refine .inr ⟨_, rfl, ?_⟩
    have := membersReadAs_cons (k := "contentType".data) (by decide) (readsAs_str (name_plain t))
      (delayText_tail d)
    simpa [List.append_assoc] using this

theorem messageText_reads (item : SerializedWithOptions) :
    ReadsAs (messageText item) (entryJson item) := by
  rw [messageText_eq]
  exact readsAs_obj (membersReadAs_cons (by decide) (readsAs_str (encodeBase64_plain _))
    (optionalText_tail _ _))

theorem messageText_head (item : SerializedWithOptions) : ∃ t, messageText item = '\x7b' :: t :=
  ⟨_, messageText_eq item⟩

theorem readEntry_entryJson (item : SerializedWithOptions) :
    readEntry (entryJson item) = some item.wire := by
  cases hc : item.contentType <;> cases hd : item.delaySeconds <;>
    simp [readEntry, entryJson, contentTypeMembers, delayMembers, hc, hd, List.lookup,
      decodeBase64_encodeBase64, SerializedWithOptions.wire]

theorem messagesText_reads {items : List SerializedWithOptions} (hne : items ≠ []) (i : Nat) :
    ElementsReadAs (messagesText (i + items.length) i items ++ [']']) (items.map entryJson) := by
  induction items generalizing i with
  | nil => exact absurd rfl hne
  | cons item rest ih =>
    cases rest with
    | nil =>
      simpa [messagesText] using elementsReadAs_last (messageText_reads item)
    | cons next more =>
      have hi : i < i + (next :: more).length + 1 - 1 := by simp
      have := elementsReadAs_cons (messageText_reads item) (ih (List.cons_ne_nil _ _) (i + 1))
      simpa [messagesText, hi, Nat.add_assoc, Nat.add_comm 1] using this

theorem bodyBuilder_dropLast (n : Nat) (items : List SerializedWithOptions) :
    (bodyBuilder n items).dropLast =
      '\x7b' :: '"' :: ("messages".data ++ '"' :: ':' :: ('[' :: (messagesText n 0 items ++ [']'])) ++
        ['\x7d']) := by
  have he : bodyBuilder n items = ("\x7b\"messages\":[".data ++ messagesText n 0 items ++ "]\x7d".data) ++
      ['\x00'] := by
    simp [bodyBuilder]
  rw [he, List.dropLast_concat]
  simp

theorem bodyBuilder_reads {items : List SerializedWithOptions} (hne : items ≠ []) :
    parse (bodyBuilder items.length items).dropLast =
      some (.obj [("messages".data, .arr (items.map entryJson))]) := by
  obtain ⟨item, rest, rfl⟩ := List.exists_cons_of_ne_nil hne
  obtain ⟨t, ht⟩ := messageText_head item
  have he := messagesText_reads hne 0
  rw [Nat.zero_add] at he
  have hm : messagesText (item :: rest).length 0 (item :: rest) =
      '\x7b' :: (t ++ (if 0 < (item :: rest).length - 1 then [','] else []) ++
        messagesText (item :: rest).length 1 rest) := by
    simp [messagesText, ht]
  rw [hm] at he
  rw [bodyBuilder_dropLast, hm]
  exact parse_of_readsAs (readsAs_obj (membersReadAs_cons (by decide) (readsAs_arr he)
    (.inl ⟨rfl, rfl⟩)))

theorem mapM_readEntry (items : List SerializedWithOptions) :
    (items.map entryJson).mapM readEntry = some (items.map SerializedWithOptions.wire) := by
  induction items with
  | nil => rfl
  | cons item rest ih =>
    rw [List.map_cons, List.mapM_cons, readEntry_entryJson, ih]
    rfl

theorem readBatchBody_bodyBuilder {items : List SerializedWithOptions} (hne : items ≠ []) :
    readBatchBody (bodyBuilder items.length items).dropLast =
      some (items.map SerializedWithOptions.wire) := by
  rw [readBatchBody, bodyBuilder_reads hne]
  simp only [if_true]
  exact mapM_readEntry items

section Batch

variable {V : Type} (h : Host V) (queuesJsonMessages : Bool)

theorem serializeBatch_ok {batch : List (MessageSendRequest V)} {builder items : List SerializedWithOptions}
    {totals totals' : BatchTotals}
    (hs : serializeBatch h queuesJsonMessages batch builder totals = .ok (items, totals')) :
    ∃ new, batch.mapM (serializeMessage h queuesJsonMessages) = .ok new ∧ items = builder ++ new ∧
      totals' = new.foldl (fun t i => t.add i.body.data.length) totals := by
  induction batch generalizing builder totals with
  | nil =>
    cases hs
    exact ⟨[], rfl, by simp, rfl⟩
  | cons m rest ih =>
    obtain ⟨item, hi, hr⟩ := except_bind_eq_ok.mp hs
    obtain ⟨new, hn, rfl, rfl⟩ := ih hr
    refine ⟨item :: new, ?_, by simp, rfl⟩
    rw [List.mapM_cons, hi, hn]
    rfl

theorem mapM_ok_forall₂ {α β : Type} {f : α → Except JsgError β} {l : List α} {r : List β}
    (hl : l.mapM f = .ok r) : List.Forall₂ (fun a b => f a = .ok b) l r := by
  induction l generalizing r with
  | nil => cases hl; exact .nil
  | cons a l ih =>
    rw [List.mapM_cons] at hl
    obtain ⟨b, hb, hr⟩ := except_bind_eq_ok.mp hl
    obtain ⟨bs, hbs, he⟩ := except_bind_eq_ok.mp hr
    cases he
    exact .cons hb (ih hbs)

theorem mapM_ok_length {α β : Type} {f : α → Except JsgError β} {l : List α} {r : List β}
    (hl : l.mapM f = .ok r) : r.length = l.length :=
  (mapM_ok_forall₂ hl).length_eq.symm

theorem foldl_totals (items : List SerializedWithOptions) (t : BatchTotals) :
    items.foldl (fun t i => t.add i.body.data.length) t =
      ⟨t.totalSize + (items.map fun i => i.body.data.length).sum,
        max t.largestMessage ((items.map fun i => i.body.data.length).foldr max 0)⟩ := by
  induction items generalizing t with
  | nil => cases t; simp
  | cons i rest ih =>
    rw [List.foldl_cons, ih]
    simp only [BatchTotals.add, Nat.add_assoc, max_assoc, List.map_cons, List.sum_cons, List.foldr_cons]

theorem sendBatch_ok {batch : List (MessageSendRequest V)} {options : Option SendBatchOptions}
    {req : QueueRequest (List Char)} (hreq : sendBatch h queuesJsonMessages batch options = .ok req) :
    batch ≠ [] ∧ ∃ items totals, serializeBatch h queuesJsonMessages batch [] {} = .ok (items, totals) ∧
      req = batchRequest batch.length items totals options := by
  unfold sendBatch at hreq
  split at hreq
  · cases hreq
  · rename_i hn
    obtain ⟨⟨items, totals⟩, hs, rfl⟩ := except_map_eq_ok.mp hreq
    exact ⟨fun he => hn (by simp [he]), items, totals, hs, rfl⟩

/-- The broker reads `items` back from `req`: the body parses as one object whose only
member `messages` lists one entry per item, in order, each reading back as the item's
payload, format label and delay; the size headers carry the count, the sum and the
maximum of the payload sizes. -/
def ReadsBackAs (req : QueueRequest (List Char)) (items : List SerializedWithOptions) : Prop :=
  readBatchBody req.body = some (items.map SerializedWithOptions.wire) ∧
    req.header? "CF-Queue-Batch-Count" = some (String.mk (decimal items.length)) ∧
    req.header? "CF-Queue-Batch-Bytes" =
      some (String.mk (decimal (items.map fun i => i.body.data.length).sum)) ∧
    req.header? "CF-Queue-Largest-Msg" =
      some (String.mk (decimal ((items.map fun i => i.body.data.length).foldr max 0)))

/-- The batch body is a faithful, decodable encoding of the serialized batch. -/
theorem sendBatch_body_reads_back (batch : List (MessageSendRequest V))
    (options : Option SendBatchOptions) (req : QueueRequest (List Char))
    (hreq : sendBatch h queuesJsonMessages batch options = .ok req) :
    ∃ items, batch.mapM (serializeMessage h queuesJsonMessages) = .ok items ∧ items ≠ [] ∧
      ReadsBackAs req items := by
  obtain ⟨hne, items, totals, hs, rfl⟩ := sendBatch_ok h queuesJsonMessages hreq
  obtain ⟨new, hn, hitems, htotals⟩ := serializeBatch_ok h queuesJsonMessages hs
  rw [List.nil_append] at hitems
  subst hitems htotals
  have hlen := mapM_ok_length hn
  have hne' : items ≠ [] := fun he => hne (List.length_eq_zero.mp (by simp [← hlen, he]))
  refine ⟨items, hn, hne', ?_⟩
  simp only [List.nil_append, foldl_totals, batchRequest, ReadsBackAs, QueueRequest.header?]
  rw [← hlen, readBatchBody_bodyBuilder hne']
  simp [List.lookup]

end Batch

theorem sendBatch_body_reads_back_hi :
    sendBatch sampleHost false [{ body := .string [104, 105], contentType := some "text" }] none =
      .ok ⟨"https://fake-host/batch", [("CF-Queue-Batch-Count", "1"), ("CF-Queue-Batch-Bytes", "2"),
        ("CF-Queue-Largest-Msg", "2"), (contentTypeHeader, mimeJson)],
        "\x7b\"messages\":[\x7b\"body\":\"aGk=\",\"contentType\":\"text\"\x7d]\x7d".data⟩ ∧
    ∃ items, [{ body := SampleValue.string [104, 105], contentType := some "text" }].mapM
        (serializeMessage sampleHost false) = .ok items ∧ items ≠ [] ∧
      ReadsBackAs ⟨"https://fake-host/batch", [("CF-Queue-Batch-Count", "1"),
        ("CF-Queue-Batch-Bytes", "2"), ("CF-Queue-Largest-Msg", "2"), (contentTypeHeader, mimeJson)],
        "\x7b\"messages\":[\x7b\"body\":\"aGk=\",\"contentType\":\"text\"\x7d]\x7d".data⟩ items :=
  ⟨rfl, sendBatch_body_reads_back sampleHost false _ none _ rfl⟩

section Delivery

variable {V : Type} (h : Host V) (queuesJsonMessages : Bool)

/-- What reaches the consumer from a batch `sendBatch` accepts: the broker reads one entry
per message, in batch order; each carries its message's delay, and its payload is the
encoding of the message's body by the format its label names, which the RPC overload of
`deserialize` decodes with that format's decoder and the local overload with the same
dispatch over one-byte text. -/
theorem sendBatch_entries_labelledBy (batch : List (MessageSendRequest V))
    (options : Option SendBatchOptions) (req : QueueRequest (List Char))
    (hreq : sendBatch h queuesJsonMessages batch options = .ok req) :
    ∃ entries, readBatchBody req.body = some entries ∧
      List.Forall₂ (fun (message : MessageSendRequest V) (entry : List UInt8 × Option (List Char) × Option Int) =>
        entry.2.2 = message.delaySeconds.map BitVec.toInt ∧
          ∃ f, LabelledBy h message.body (entry.2.1.map String.mk) entry.1 f) batch entries := by
  obtain ⟨hne, items, totals, hs, rfl⟩ := sendBatch_ok h queuesJsonMessages hreq
  obtain ⟨items, hn, rfl, -⟩ := serializeBatch_ok h queuesJsonMessages hs
  have hpairs := mapM_ok_forall₂ hn
  have hne' : items ≠ [] := fun he => hne (List.forall₂_nil_right_iff.mp (he ▸ hpairs))
  refine ⟨items.map SerializedWithOptions.wire, ?_, List.forall₂_map_right_iff.mpr (hpairs.imp ?_)⟩
  · rw [batchRequest, hpairs.length_eq, readBatchBody_bodyBuilder hne']
  · intro message item hm
    refine ⟨congrArg (Option.map _) (serializeMessage_ok h queuesJsonMessages hm).2.1, ?_⟩
    rw [SerializedWithOptions.wire, Option.map_map]
    exact serializeMessage_labelledBy h queuesJsonMessages hm

end Delivery

theorem sendBatch_entries_labelledBy_hi :
    ∃ req, sendBatch sampleHost false [{ body := .string [104, 105], contentType := some "text" }] none =
        .ok req ∧
      ∃ entries, readBatchBody req.body = some entries ∧
        List.Forall₂ (fun (message : MessageSendRequest SampleValue)
            (entry : List UInt8 × Option (List Char) × Option Int) =>
          entry.2.2 = message.delaySeconds.map BitVec.toInt ∧
            ∃ f, LabelledBy sampleHost message.body (entry.2.1.map String.mk) entry.1 f)
          [{ body := .string [104, 105], contentType := some "text" }] entries :=
  ⟨_, rfl, sendBatch_entries_labelledBy sampleHost false _ none _ rfl⟩

theorem contentTypeText_length_le (t : Option ContentType) : (contentTypeText t).length ≤ 22 := by
  cases t with
  | none => exact Nat.zero_le _
  | some t => cases t <;> decide

theorem delayText_length_le (d : Option CInt) : (delayText d).length ≤ 25 := by
  cases d with
  | none => exact Nat.zero_le _
  | some d =>
    have := decimalInt_length_le d
    simp only [delayText, List.length_append, List.length_cons, List.length_nil]
    omega

theorem messageText_length_le (item : SerializedWithOptions) :
    (messageText item).length ≤ (item.body.data.length + 2) / 3 * 4 + 58 := by
  have hc := contentTypeText_length_le item.contentType
  have hd := delayText_length_le item.delaySeconds
  have hb := encodeBase64_length item.body.data
  have hkey : "body".data.length = 4 := rfl
  rw [messageText_eq]
  simp only [List.length_append, List.length_cons, List.length_nil]
  omega

theorem messagesText_length_le (n i : Nat) (items : List SerializedWithOptions) :
    (messagesText n i items).length ≤
      (items.map fun item => (item.body.data.length + 2) / 3 * 4 + 59).sum := by
  induction items generalizing i with
  | nil => exact Nat.zero_le _
  | cons item rest ih =>
    have hm := messageText_length_le item
    have hr := ih (i + 1)
    simp only [messagesText, List.length_append, List.map_cons, List.sum_cons]
    split <;> simp only [List.length_singleton, List.length_nil] <;> omega

theorem base64_sum_le (sizes : List Nat) :
    (sizes.map fun s => (s + 2) / 3 * 4).sum ≤ (sizes.sum + 2) / 3 * 4 + 4 * sizes.length := by
  induction sizes with
  | nil => simp
  | cons s rest ih =>
    simp only [List.map_cons, List.sum_cons, List.length_cons]
    omega

theorem sum_map_add_const {α : Type} (f : α → Nat) (c : Nat) (l : List α) :
    (l.map fun x => f x + c).sum = (l.map f).sum + c * l.length := by
  induction l with
  | nil => simp
  | cons x l ih =>
    simp only [List.map_cons, List.sum_cons, List.length_cons, ih, Nat.mul_succ]
    omega

/-- `bodyBuilder` never outgrows the capacity it is created with: every character
`sendBatch` appends, the final NUL included, fits in `estimatedSize`. -/
theorem bodyBuilder_length_le_estimatedSize (items : List SerializedWithOptions) :
    (bodyBuilder items.length items).length ≤
      estimatedSize (items.map fun item => item.body.data.length).sum items.length := by
  have hm := messagesText_length_le items.length 0 items
  have hs := base64_sum_le (items.map fun item => item.body.data.length)
  have hc := sum_map_add_const (fun item : SerializedWithOptions => (item.body.data.length + 2) / 3 * 4)
    59 items
  simp only at hc
  rw [hc] at hm
  rw [List.map_map, List.length_map] at hs
  simp only [Function.comp_def] at hs
  simp only [bodyBuilder, estimatedSize, List.length_append, List.length_cons, List.length_nil]
  have hpre : ("\x7b\"messages\":[".data).length = 13 := rfl
  have hpost : ("]\x7d".data).length = 2 := rfl
  omega

end WorkerdQueue
