import WorkerdQueue.Send

/-! The format label that travels with a message. `send` and `sendBatch`
validate a declared type the same way, and both label a message with the
constant `validateContentType` returns; but `sendBatch` then serializes under
the caller's own spelling. Where both succeed, the label names the encoder that
made the payload. The RPC overload of `deserialize` then applies the matching
decoder; the local one takes the same format but reads text one byte a character. -/

namespace WorkerdQueue

section Format

variable {V : Type} (h : Host V)

def Host.encoder : ContentType → V → Except JsgError (List UInt8)
  | .text => fun v => .ok (h.toString v)
  | .bytes => fun v => .ok (h.bufferSource v)
  | .json => h.toJson
  | .v8 => h.serializerWrite serializerVersion

/-- The decoder of each format, with `str` the `js.str` overload that reads text; with
`h.strOfChars` it inverts each encoder, `toString` giving UTF-8. -/
def Host.decoder (str : List UInt8 → V) : ContentType → List UInt8 → Except JsgError V
  | .text => fun b => .ok (str b)
  | .bytes => fun b => .ok (h.bytes b)
  | .json => h.fromJson
  | .v8 => h.deserializerRead

theorem serializeV8_data {v : V} {s : Serialized} (hs : serializeV8 h v = .ok s) :
    h.encoder .v8 v = .ok s.data := by
  obtain ⟨b, hb, he⟩ := except_bind_eq_ok.mp hs
  cases he
  exact hb

theorem serialize_data {v : V} {c : String} {bb : SerializeArrayBufferBehavior} {s : Serialized}
    (hs : serialize h v c bb = .ok s) : ∃ f, c = f.name ∧ h.encoder f v = .ok s.data := by
  unfold serialize at hs
  split at hs <;> rename_i hc
  · refine ⟨.text, ContentType.ofName?_eq_some.mp hc, ?_⟩
    split at hs <;> cases hs
    rfl
  · refine ⟨.bytes, ContentType.ofName?_eq_some.mp hc, ?_⟩
    split at hs
    · split at hs
      · cases hs; rfl
      · split at hs <;> cases hs <;> rfl
    · cases hs
  · refine ⟨.json, ContentType.ofName?_eq_some.mp hc, ?_⟩
    obtain ⟨b, hb, he⟩ := except_bind_eq_ok.mp hs
    cases he
    exact hb
  · exact ⟨.v8, ContentType.ofName?_eq_some.mp hc, serializeV8_data h hs⟩
  · cases hs

theorem decodeAs_name (str : List UInt8 → V) (f : ContentType) (b : List UInt8) :
    decodeAs h str f.name b = h.decoder str f b := by
  cases f <;> rfl

def LabelSelects (label : Option String) (f : ContentType) : Prop :=
  label = some f.name ∨ (label = none ∧ f = .v8)

/-- `payload` is `f`'s encoding of `v`, and both `deserialize` overloads read `label`
as `f`: the RPC overload applies `f`'s decoder, the local one the same dispatch with the
one-byte `js.str`. -/
def LabelledBy (v : V) (label : Option String) (payload : List UInt8) (f : ContentType) : Prop :=
  h.encoder f v = .ok payload ∧ deserialize h payload label = h.decoder h.strOfBytes f payload ∧
    ∀ m : RpcQueueMessage, m.data = payload → m.contentType = label.getD "" →
      deserializeRpc h m = h.decoder h.strOfChars f payload

theorem labelledBy_of_selects {v : V} {label : Option String} {payload : List UInt8}
    {f : ContentType} (he : h.encoder f v = .ok payload) (hl : LabelSelects label f) :
    LabelledBy h v label payload f := by
  have hne : f.name ≠ "" := by cases f <;> decide
  refine ⟨he, ?_, fun m hd hc => ?_⟩
  · rcases hl with rfl | ⟨rfl, rfl⟩ <;> simp [deserialize, decodeAs_name]
  · rcases hl with rfl | ⟨rfl, rfl⟩
    · simp [deserializeRpc, hd, hc, hne, decodeAs_name]
    · simp [deserializeRpc, hd, hc, decodeAs_name]

end Format

theorem ContentType.name_inj {f g : ContentType} (h : f.name = g.name) : f = g := by
  cases f <;> cases g <;> first | rfl | exact absurd h (by decide)

theorem toLower_name (f : ContentType) : toLower f.name = f.name := by
  cases f <;> rfl

theorem lookup_append {k : String} (l₁ l₂ : List (String × String)) :
    (l₁ ++ l₂).lookup k = (l₁.lookup k).or (l₂.lookup k) := by
  induction l₁ with
  | nil => rfl
  | cons p l ih =>
    obtain ⟨a, b⟩ := p
    by_cases hk : k = a
    · subst hk
      simp [List.lookup]
    · have hb : (k == a) = false := by simpa using hk
      simp [List.lookup, hb, ih]

section Paths

variable {V : Type} (h : Host V) (queuesJsonMessages : Bool)

theorem sendOptionHeaders_format {options : Option SendOptions} {hs : List (String × String)}
    {ct : Option ContentType} (ho : sendOptionHeaders options = .ok (hs, ct)) :
    hs.lookup hdrMsgFormat = ct.map ContentType.name := by
  cases options with
  | none => cases ho; rfl
  | some opts =>
    obtain ⟨⟨fmt, ct'⟩, hf, he⟩ := except_map_eq_ok.mp ho
    simp only [Prod.mk.injEq] at he
    obtain ⟨rfl, rfl⟩ := he
    have hdelay : (delayHeader opts.delaySeconds).lookup hdrMsgFormat = none := by
      cases opts.delaySeconds <;> rfl
    cases hc : opts.contentType with
    | none =>
      rw [hc] at hf
      cases hf
      simpa using hdelay
    | some type =>
      rw [hc] at hf
      obtain ⟨t, _, he⟩ := except_map_eq_ok.mp hf
      cases he
      simp [List.lookup, hdrMsgFormat]

theorem send_ok {body : V} {options : Option SendOptions} {req : QueueRequest (List UInt8)}
    (hreq : send h queuesJsonMessages body options = .ok req) :
    h.isUndefined body = false ∧ ∃ hs ct jh s, sendOptionHeaders options = .ok (hs, ct) ∧
      sendSerialize h queuesJsonMessages body ct = .ok (jh, s) ∧
      req = ⟨"https://fake-host/message", (contentTypeHeader, octetStream) :: hs ++ jh, s.data⟩ := by
  unfold send at hreq
  split at hreq
  · cases hreq
  · rename_i hu
    obtain ⟨⟨hs, ct⟩, ho, hrest⟩ := except_bind_eq_ok.mp hreq
    obtain ⟨⟨jh, s⟩, hser, he⟩ := except_bind_eq_ok.mp hrest
    cases he
    exact ⟨by simpa using hu, hs, ct, jh, s, ho, hser, rfl⟩

theorem sendSerialize_ok {body : V} {ct : Option ContentType} {jh : List (String × String)}
    {s : Serialized} (hs : sendSerialize h queuesJsonMessages body ct = .ok (jh, s)) :
    (∃ t, ct = some t ∧ jh = [] ∧ serialize h body t.name .deepCopy = .ok s) ∨
      (ct = none ∧ queuesJsonMessages = true ∧ jh = [(hdrMsgFormat, ContentType.json.name)] ∧
        serialize h body ContentType.json.name .deepCopy = .ok s) ∨
      (ct = none ∧ queuesJsonMessages = false ∧ jh = [] ∧ serializeV8 h body = .ok s) := by
  cases ct with
  | some t =>
    obtain ⟨s', hs', he⟩ := except_map_eq_ok.mp hs
    cases he
    exact .inl ⟨t, rfl, rfl, hs'⟩
  | none =>
    cases queuesJsonMessages <;> obtain ⟨s', hs', he⟩ := except_map_eq_ok.mp hs <;> cases he
    · exact .inr (.inr ⟨rfl, rfl, rfl, hs'⟩)
    · exact .inr (.inl ⟨rfl, rfl, rfl, hs'⟩)

theorem serializeMessage_ok {message : MessageSendRequest V} {item : SerializedWithOptions}
    (hm : serializeMessage h queuesJsonMessages message = .ok item) :
    h.isUndefined message.body = false ∧ item.delaySeconds = message.delaySeconds ∧
      ((∃ c t, message.contentType = some c ∧ validateContentType c = .ok t ∧
          serialize h message.body c .shallowReference = .ok item.body ∧ item.contentType = some t) ∨
        (message.contentType = none ∧ queuesJsonMessages = true ∧
          serialize h message.body ContentType.json.name .shallowReference = .ok item.body ∧
          item.contentType = some .json) ∨
        (message.contentType = none ∧ queuesJsonMessages = false ∧
          serializeV8 h message.body = .ok item.body ∧ item.contentType = none)) := by
  unfold serializeMessage at hm
  split at hm
  · cases hm
  · rename_i hu
    refine ⟨by simpa using hu, ?_⟩
    split at hm <;> rename_i hc
    · obtain ⟨t, ht, hrest⟩ := except_bind_eq_ok.mp hm
      obtain ⟨b, hb, he⟩ := except_bind_eq_ok.mp hrest
      cases he
      exact ⟨rfl, .inl ⟨_, t, hc, ht, hb, rfl⟩⟩
    · cases queuesJsonMessages <;> obtain ⟨b, hb, he⟩ := except_map_eq_ok.mp hm <;> cases he
      · exact ⟨rfl, .inr (.inr ⟨hc, rfl, hb, rfl⟩)⟩
      · exact ⟨rfl, .inr (.inl ⟨hc, rfl, hb, rfl⟩)⟩

/-- A declared type reaches the batch encoder only in the exact spelling of its
constant: any other spelling `validateContentType` accepts is refused by `serialize`. -/
theorem serializeMessage_spelling {message : MessageSendRequest V} {c : String} {t : ContentType}
    (hu : h.isUndefined message.body = false) (hc : message.contentType = some c)
    (ht : validateContentType c = .ok t) (hne : c ≠ t.name) :
    serializeMessage h queuesJsonMessages message = .error (unsupportedContentType c) := by
  have hn : ContentType.ofName? c = none := by
    cases hf : ContentType.ofName? c with
    | none => rfl
    | some f =>
      have hcf := ContentType.ofName?_eq_some.mp hf
      have hl := validateContentType_eq_ok.mp ht
      rw [hcf, toLower_name] at hl
      exact absurd (hcf.trans hl) hne
  simp [serializeMessage, hu, hc, ht, bind, Except.bind, serialize, hn]

/-- `send` accepts a body declared as `"TEXT"`, while `sendBatch` refuses the same
message: it serializes under the caller's spelling, which matches no constant. -/
theorem sendBatch_rejects_uppercase_text :
    send sampleHost false (.string [104, 105]) (some { contentType := some "TEXT" }) =
      .ok ⟨"https://fake-host/message",
        [(contentTypeHeader, octetStream), (hdrMsgFormat, "text")], [104, 105]⟩ ∧
    sendBatch sampleHost false [{ body := .string [104, 105], contentType := some "TEXT" }] none =
      .error (unsupportedContentType "TEXT") :=
  ⟨rfl, rfl⟩

theorem send_labelledBy {body : V} {options : Option SendOptions} {req : QueueRequest (List UInt8)}
    (hreq : send h queuesJsonMessages body options = .ok req) :
    ∃ f, LabelledBy h body (req.header? hdrMsgFormat) req.body f := by
  obtain ⟨-, hs, ct, jh, s, ho, hser, rfl⟩ := send_ok h queuesJsonMessages hreq
  have hlabel : QueueRequest.header? ⟨"https://fake-host/message",
      (contentTypeHeader, octetStream) :: hs ++ jh, s.data⟩ hdrMsgFormat =
      (hs.lookup hdrMsgFormat).or (jh.lookup hdrMsgFormat) := by
    simp [QueueRequest.header?, List.lookup, contentTypeHeader, hdrMsgFormat, lookup_append]
  rw [hlabel, sendOptionHeaders_format ho]
  rcases sendSerialize_ok h queuesJsonMessages hser with ⟨t, rfl, rfl, hs'⟩ | ⟨rfl, -, rfl, hs'⟩ |
    ⟨rfl, -, rfl, hs'⟩
  · obtain ⟨f, hf, he⟩ := serialize_data h hs'
    exact ⟨f, labelledBy_of_selects h he (.inl (by simp [hf]))⟩
  · obtain ⟨f, hf, he⟩ := serialize_data h hs'
    exact ⟨f, labelledBy_of_selects h he (.inl (by simp [List.lookup, hf]))⟩
  · exact ⟨.v8, labelledBy_of_selects h (serializeV8_data h hs') (.inr ⟨rfl, rfl⟩)⟩

theorem serializeMessage_labelledBy {message : MessageSendRequest V} {item : SerializedWithOptions}
    (hm : serializeMessage h queuesJsonMessages message = .ok item) :
    ∃ f, LabelledBy h message.body (item.contentType.map ContentType.name) item.body.data f := by
  obtain ⟨-, -, ⟨c, t, -, ht, hb, hct⟩ | ⟨-, -, hb, hct⟩ | ⟨-, -, hb, hct⟩⟩ :=
    serializeMessage_ok h queuesJsonMessages hm
  · obtain ⟨f, rfl, he⟩ := serialize_data h hb
    have hl := validateContentType_eq_ok.mp ht
    rw [toLower_name] at hl
    obtain rfl := ContentType.name_inj hl
    rw [hct]
    exact ⟨f, labelledBy_of_selects h he (.inl rfl)⟩
  · obtain ⟨f, hf, he⟩ := serialize_data h hb
    obtain rfl := ContentType.name_inj hf
    rw [hct]
    exact ⟨_, labelledBy_of_selects h he (.inl rfl)⟩
  · rw [hct]
    exact ⟨.v8, labelledBy_of_selects h (serializeV8_data h hb) (.inr ⟨rfl, rfl⟩)⟩

end Paths

/-- `send` labels the string "é" `"text"` and sends its UTF-8 bytes; the decoder that
label names gives "é" back, and so does the RPC overload, but the local overload reads
each byte as a character and gives the one-byte string "Ã©". -/
theorem local_text_reads_one_byte :
    send sampleHost false (.string [195, 169]) (some { contentType := some "text" }) =
        .ok ⟨"https://fake-host/message", [(contentTypeHeader, octetStream), (hdrMsgFormat, "text")],
          [195, 169]⟩ ∧
      (∃ f, LabelledBy sampleHost (.string [195, 169]) (some "text") [195, 169] f) ∧
      sampleHost.decoder sampleHost.strOfChars .text [195, 169] = .ok (.string [195, 169]) ∧
      deserializeRpc sampleHost ⟨"m", 0, [195, 169], "text", 1⟩ = .ok (.string [195, 169]) ∧
      deserialize sampleHost [195, 169] (some "text") = .ok (.string [195, 131, 194, 169]) := by
  have hs : send sampleHost false (.string [195, 169]) (some { contentType := some "text" }) =
      .ok ⟨"https://fake-host/message", [(contentTypeHeader, octetStream), (hdrMsgFormat, "text")],
        [195, 169]⟩ := rfl
  exact ⟨hs, send_labelledBy sampleHost false hs, rfl, rfl, rfl⟩

end WorkerdQueue
