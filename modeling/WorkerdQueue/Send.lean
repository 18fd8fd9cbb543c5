import WorkerdQueue.Encoding

/-! `WorkerQueue::send` and `WorkerQueue::sendBatch`: the checks that reject a
call, and the request each hands to `client->request` (URL, headers in the order
they are added, body). The HTTP exchange that follows is `requireOk`. -/

namespace WorkerdQueue

/-- Modelled from the spec: `MimeType::OCTET_STREAM.toString()` (workerd/util/mimetype.h,
not under src/). -/
def octetStream : String := "application/octet-stream"

/-- Modelled from the spec: `MimeType::JSON.toString()` (workerd/util/mimetype.h, not
under src/). -/
def mimeJson : String := "application/json"

def contentTypeHeader : String := "Content-Type"

def hdrMsgFormat : String := "X-Msg-Fmt"

def hdrMsgDelay : String := "X-Msg-Delay-Secs"

structure QueueRequest (β : Type) where
  url : String
  headers : List (String × String)
  body : β
deriving DecidableEq, Repr

def QueueRequest.header? {β : Type} (req : QueueRequest β) (name : String) : Option String :=
  req.headers.lookup name

structure SendOptions where
  contentType : Option String := none
  delaySeconds : Option CInt := none

structure MessageSendRequest (V : Type) where
  body : V
  contentType : Option String := none
  delaySeconds : Option CInt := none

structure SendBatchOptions where
  delaySeconds : Option CInt := none

structure SerializedWithOptions where
  body : Serialized
  contentType : Option ContentType := none
  delaySeconds : Option CInt := none
deriving DecidableEq, Repr

def undefinedBody : JsgError := ⟨.typeError, "Message body cannot be undefined"⟩

def emptyBatch : JsgError := ⟨.typeError, "sendBatch() requires at least one message"⟩

def requireOk (operation : String) (statusCode : Nat) (statusText : String) :
    Except JsgError Unit :=
  if statusCode = 200 then .ok () else .error ⟨.error, "Queue " ++ operation ++ " failed: " ++ statusText⟩

def handleSend (statusCode : Nat) (statusText : String) : Except JsgError Unit :=
  requireOk "send" statusCode statusText

def handleWrite (statusCode : Nat) (statusText : String) : Except JsgError Unit :=
  requireOk "sendBatch" statusCode statusText

section Send

variable {V : Type} (h : Host V) (queuesJsonMessages : Bool)

def formatHeader : Option String →
    Except JsgError (List (String × String) × Option ContentType)
  | some type => (fun t => ([(hdrMsgFormat, t.name)], some t)) <$> validateContentType type
  | none => .ok ([], none)

def delayHeader : Option CInt → List (String × String)
  | some secs => [(hdrMsgDelay, String.mk (decimalInt secs.toInt))]
  | none => []

def sendOptionHeaders : Option SendOptions →
    Except JsgError (List (String × String) × Option ContentType)
  | none => .ok ([], none)
  | some opts =>
    (fun r => (r.1 ++ delayHeader opts.delaySeconds, r.2)) <$> formatHeader opts.contentType

def sendSerialize (body : V) : Option ContentType →
    Except JsgError (List (String × String) × Serialized)
  | some type => (fun s => ([], s)) <$> serialize h body type.name .deepCopy
  | none =>
    if queuesJsonMessages then
      (fun s => ([(hdrMsgFormat, ContentType.json.name)], s)) <$>
        serialize h body ContentType.json.name .deepCopy
    else (fun s => ([], s)) <$> serializeV8 h body

def send (body : V) (options : Option SendOptions) :
    Except JsgError (QueueRequest (List UInt8)) :=
  if h.isUndefined body then .error undefinedBody
  else do
    let (optionHeaders, contentType) ← sendOptionHeaders options
    let (jsonHeader, serialized) ← sendSerialize h queuesJsonMessages body contentType
    pure
      { url := "https://fake-host/message"
        headers := (contentTypeHeader, octetStream) :: optionHeaders ++ jsonHeader
        body := serialized.data }

/-- One pass of the serialization loop of `sendBatch`. The body is serialized under the
caller's spelling of the content type; the validated constant only labels it. -/
def serializeMessage (message : MessageSendRequest V) : Except JsgError SerializedWithOptions :=
  if h.isUndefined message.body then .error undefinedBody
  else
    match message.contentType with
    | some contentType => do
      let validated ← validateContentType contentType
      let body ← serialize h message.body contentType .shallowReference
      pure { body, contentType := some validated, delaySeconds := message.delaySeconds }
    | none =>
      if queuesJsonMessages then
        (fun body => { body, contentType := some .json, delaySeconds := message.delaySeconds }) <$>
          serialize h message.body ContentType.json.name .shallowReference
      else
        (fun body => { body, contentType := none, delaySeconds := message.delaySeconds }) <$>
          serializeV8 h message.body

structure BatchTotals where
  totalSize : Nat := 0
  largestMessage : Nat := 0
deriving DecidableEq, Repr

def BatchTotals.add (t : BatchTotals) (size : Nat) : BatchTotals :=
  ⟨t.totalSize + size, max t.largestMessage size⟩

def serializeBatch : List (MessageSendRequest V) → List SerializedWithOptions → BatchTotals →
    Except JsgError (List SerializedWithOptions × BatchTotals)
  | [], builder, totals => .ok (builder, totals)
  | message :: rest, builder, totals => do
    let item ← serializeMessage h queuesJsonMessages message
    serializeBatch rest (builder ++ [item]) (totals.add item.body.data.length)

end Send

def messageText (item : SerializedWithOptions) : List Char :=
  "\x7b\"body\":\"".data ++ encodeBase64 item.body.data ++ ['"'] ++
    (match item.contentType with
      | some contentType => ",\"contentType\":\"".data ++ contentType.name.data ++ ['"']
      | none => []) ++
    (match item.delaySeconds with
      | some delaySecs => ",\"delaySecs\": ".data ++ decimalInt delaySecs.toInt
      | none => []) ++
    "\x7d".data

def messagesText (messageCount : Nat) : Nat → List SerializedWithOptions → List Char
  | _, [] => []
  | i, item :: rest =>
    messageText item ++ (if i < messageCount - 1 then [','] else []) ++
      messagesText messageCount (i + 1) rest

def bodyBuilder (messageCount : Nat) (serializedBodies : List SerializedWithOptions) : List Char :=
  "\x7b\"messages\":[".data ++ messagesText messageCount 0 serializedBodies ++ "]\x7d".data ++
    ['\x00']

def estimatedSize (totalSize messageCount : Nat) : Nat :=
  (totalSize + 2) / 3 * 4 + messageCount * 64 + 32

def batchRequest (messageCount : Nat) (serializedBodies : List SerializedWithOptions)
    (totals : BatchTotals) (options : Option SendBatchOptions) : QueueRequest (List Char) :=
  { url := "https://fake-host/batch",
    headers := [("CF-Queue-Batch-Count", String.mk (decimal messageCount)),
      ("CF-Queue-Batch-Bytes", String.mk (decimal totals.totalSize)),
      ("CF-Queue-Largest-Msg", String.mk (decimal totals.largestMessage)),
      (contentTypeHeader, mimeJson)] ++ delayHeader (options.bind (·.delaySeconds)),
    -- `kj::String` takes the trailing NUL as its terminator
    body := (bodyBuilder messageCount serializedBodies).dropLast }

def sendBatch {V : Type} (h : Host V) (queuesJsonMessages : Bool)
    (batch : List (MessageSendRequest V)) (options : Option SendBatchOptions) :
    Except JsgError (QueueRequest (List Char)) :=
  if batch.length = 0 then .error emptyBatch
  else (fun r => batchRequest batch.length r.1 r.2 options) <$>
    serializeBatch h queuesJsonMessages batch [] {}

end WorkerdQueue
