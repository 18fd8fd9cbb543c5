import Mathlib

/-! The content-type codec of `queue.c++`: the four message formats, the
case-insensitive check of a declared type, and the two directions between a
JavaScript value and payload bytes. The engine's conversions are the fields
of `Host`; what is modelled is which of them each call site picks. -/

namespace WorkerdQueue

inductive ErrorKind
  | typeError
  | error
deriving DecidableEq, Repr

structure JsgError where
  kind : ErrorKind
  message : String
deriving DecidableEq, Repr

theorem except_bind_eq_ok {ε α β : Type} {x : Except ε α} {f : α → Except ε β} {b : β} :
    x >>= f = .ok b ↔ ∃ a, x = .ok a ∧ f a = .ok b := by
  cases x <;> simp [bind, Except.bind]

theorem except_map_eq_ok {ε α β : Type} {x : Except ε α} {f : α → β} {b : β} :
    f <$> x = .ok b ↔ ∃ a, x = .ok a ∧ f a = b := by
  cases x <;> simp [Functor.map, Except.map]

inductive ContentType
  | text
  | bytes
  | json
  | v8
deriving DecidableEq, Repr

namespace ContentType

/-- Modelled from the spec: the constants `IncomingQueueMessage::ContentType::TEXT`,
`BYTES`, `JSON` and `V8` of queue.h, which is not under src/. -/
def name : ContentType → String
  | text => "text"
  | bytes => "bytes"
  | json => "json"
  | v8 => "v8"

def ofName? (s : String) : Option ContentType :=
  if s = text.name then some text
  else if s = bytes.name then some bytes
  else if s = json.name then some json
  else if s = v8.name then some v8
  else none

theorem ofName?_eq_some {s : String} {t : ContentType} : ofName? s = some t ↔ s = t.name := by
  constructor
  · unfold ofName?
    split_ifs <;> rintro ⟨⟩ <;> assumption
  · rintro rfl
    cases t <;> decide

@[simp] theorem ofName?_name (t : ContentType) : ofName? t.name = some t :=
  ofName?_eq_some.mpr rfl

end ContentType

/-- Modelled from the spec: `toLower` of workerd/util/strings.h, which is not under src/;
ASCII lower-casing, the spec's "case-insensitive match". -/
def toLower (s : String) : String := ⟨s.data.map Char.toLower⟩

def unsupportedContentType (contentType : String) : JsgError :=
  ⟨.typeError, "Unsupported queue message content type: " ++ contentType⟩

def validateContentType (contentType : String) : Except JsgError ContentType :=
  match ContentType.ofName? (toLower contentType) with
  | some t => .ok t
  | none => .error (unsupportedContentType contentType)

theorem validateContentType_eq_ok {c : String} {t : ContentType} :
    validateContentType c = .ok t ↔ toLower c = t.name := by
  unfold validateContentType
  split <;> rename_i h
  · rw [← ContentType.ofName?_eq_some, h]; simp
  · simp only [reduceCtorEq, false_iff]
    intro he
    simp [ContentType.ofName?_eq_some.mpr he] at h

/-- The engine calls `serialize`, `deserialize` and `serializeV8` make on a message body.
`js.str` has two overloads: on a `kj::byte` array V8 builds a one-byte string, a character
per byte (`strOfBytes`); on a `char` array it reads the bytes as UTF-8 (`strOfChars`). -/
structure Host (V : Type) where
  isUndefined : V → Bool
  isString : V → Bool
  isArrayBufferView : V → Bool
  typeOf : V → String
  toString : V → List UInt8
  bufferSource : V → List UInt8
  canDetach : V → Bool
  toJson : V → Except JsgError (List UInt8)
  serializerWrite : Nat → V → Except JsgError (List UInt8)
  strOfBytes : List UInt8 → V
  strOfChars : List UInt8 → V
  bytes : List UInt8 → V
  fromJson : List UInt8 → Except JsgError V
  deserializerRead : List UInt8 → Except JsgError V

inductive Owner
  | string
  | array
  | bufferSource
  | backingStore
deriving DecidableEq, Repr

structure Serialized where
  own : Owner
  data : List UInt8
deriving DecidableEq, Repr

inductive SerializeArrayBufferBehavior
  | deepCopy
  | shallowReference
deriving DecidableEq, Repr

section Host

variable {V : Type} (h : Host V)

def serializerVersion : Nat := 15

def serializeV8 (body : V) : Except JsgError Serialized := do
  let bytes ← h.serializerWrite serializerVersion body
  pure ⟨.array, bytes⟩

def typeMismatch (contentType : ContentType) (expected received : String) : JsgError :=
  ⟨.typeError, "Content Type \"" ++ contentType.name ++ "\" requires a value of type " ++
    expected ++ ", but received: " ++ received⟩

def serialize (body : V) (contentType : String)
    (bufferBehavior : SerializeArrayBufferBehavior) : Except JsgError Serialized :=
  match ContentType.ofName? contentType with
  | some .text =>
    if h.isString body then .ok ⟨.string, h.toString body⟩
    else .error (typeMismatch .text "string" (h.typeOf body))
  | some .bytes =>
    if h.isArrayBufferView body then
      match bufferBehavior with
      | .shallowReference => .ok ⟨.bufferSource, h.bufferSource body⟩
      | .deepCopy =>
        if h.canDetach body then .ok ⟨.backingStore, h.bufferSource body⟩
        else .ok ⟨.array, h.bufferSource body⟩
    else .error (typeMismatch .bytes "ArrayBufferView" (h.typeOf body))
  | some .json => do
    let s ← h.toJson body
    pure ⟨.string, s⟩
  | some .v8 => serializeV8 h body
  | none => .error (unsupportedContentType contentType)

def decodeAs (str : List UInt8 → V) (type : String) (data : List UInt8) : Except JsgError V :=
  match ContentType.ofName? type with
  | some .text => .ok (str data)
  | some .bytes => .ok (h.bytes data)
  | some .json => h.fromJson data
  | some .v8 => h.deserializerRead data
  | none => .error (unsupportedContentType type)

/-- The local overload: an absent type means v8, and text is `js.str(body)` on the
`kj::Array<kj::byte>`. The two overloads share `decodeAs` and part only in the `js.str`
its text branch calls. -/
def deserialize (body : List UInt8) (contentType : Option String) : Except JsgError V :=
  decodeAs h h.strOfBytes (contentType.getD ContentType.v8.name) body

def Host.AsciiAgrees : Prop :=
  ∀ b : List UInt8, (∀ x ∈ b, x < 128) → h.strOfBytes b = h.strOfChars b

end Host

/-- `rpc::QueueMessage`: a capnp `Text` field has no absent state, so an unset
`contentType` reads as the empty string. -/
structure RpcQueueMessage where
  id : String
  timestampNs : Int
  data : List UInt8
  contentType : String
  attempts : UInt16
deriving DecidableEq, Repr

/-- The RPC overload: the empty type name means v8, and text is
`js.str(message.getData().asChars())`. -/
def deserializeRpc {V : Type} (h : Host V) (message : RpcQueueMessage) : Except JsgError V :=
  decodeAs h h.strOfChars (if message.contentType = "" then ContentType.v8.name else message.contentType)
    message.data

inductive SampleValue
  | undefined
  | string (utf8 : List UInt8)
  | view (bytes : List UInt8)
deriving DecidableEq, Repr

def latin1Utf8 : List UInt8 → List UInt8
  | [] => []
  | x :: rest => (if x < 128 then [x] else [x / 64 + 192, x % 64 + 128]) ++ latin1Utf8 rest

theorem latin1Utf8_ascii {b : List UInt8} (hb : ∀ x ∈ b, x < 128) : latin1Utf8 b = b := by
  induction b with
  | nil => rfl
  | cons x rest ih =>
    simp only [latin1Utf8, if_pos (hb x (List.mem_cons_self _ _)), List.singleton_append,
      ih fun y hy => hb y (List.mem_cons_of_mem _ hy)]

def sampleHost : Host SampleValue where
  isUndefined v := v == .undefined
  isString
    | .string _ => true
    | _ => false
  isArrayBufferView
    | .view _ => true
    | _ => false
  typeOf
    | .undefined => "undefined"
    | .string _ => "string"
    | .view _ => "object"
  toString
    | .string b => b
    | _ => []
  bufferSource
    | .view b => b
    | _ => []
  canDetach _ := true
  toJson
    | .string b => .ok (34 :: b ++ [34])
    | _ => .error ⟨.typeError, "not serializable"⟩
  serializerWrite _
    | .string b => .ok (34 :: b)
    | .view b => .ok (66 :: b)
    | .undefined => .ok []
  strOfBytes b := .string (latin1Utf8 b)
  strOfChars := .string
  bytes := .view
  fromJson b := .ok (.string b)
  deserializerRead b := .ok (.view b)

theorem sampleHost_asciiAgrees : sampleHost.AsciiAgrees :=
  fun _ hb => congrArg SampleValue.string (latin1Utf8_ascii hb)

end WorkerdQueue
