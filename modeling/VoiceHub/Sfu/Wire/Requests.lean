import Mathlib
import VoiceHub.Lib.Struct
import VoiceHub.Sfu.Wire.Relay

/-!
What a room makes of the messages its clients send.

A client's numbers are doubles; one below `2 ^ 53` is written with all its digits. The name of an
event is taken to be written without escapes.
-/

namespace VoiceHub.Sfu.Wire

open VoiceHub.Lib VoiceHub.Lib.Json VoiceHub.Client.Protocol

/-! ## What clients send -/

structure CandidateEnvelope where
  pc : PcKind
  publisherId : String
  candidate : String
  sdpMid : Option String
  sdpMLineIndex : Option UInt16
  usernameFragment : Option String
  deriving DecidableEq

inductive AttachmentKind | image | file
  deriving DecidableEq

def AttachmentKind.name : AttachmentKind → String
  | .image => "image"
  | .file => "file"

/-- An attachment as a client has it. -/
structure SentAttachment where
  uploadId : String
  kind : AttachmentKind
  name : String
  mime : String
  size : ℤ
  width : Option ℤ
  height : Option ℤ
  blurThumb : Option String
  deriving DecidableEq

structure ChatSendPayload where
  text : String
  clientMsgId : String
  attachments : Option (List SentAttachment)
  deriving DecidableEq

inductive ClientMessage
  | hello (displayName clientId : String) (chatOnly : Bool)
  | offer (sdp : SdpEnvelope)
  | answer (sdp : SdpEnvelope)
  | candidate (candidate : CandidateEnvelope)
  | setDisplayName (displayName : String)
  | setState (selfMuted deafened : Bool)
  | chatSend (chat : ChatSendPayload)
  | chatDelete (id : String)
  | ping (target : String)
  | renegotiate
  | screenShareStart (sdp : String) (hasSystemAudio : Bool) (mode : Option ScreenShareMode)
  | screenShareStop
  | screenShareResume (sessionToken : String)
  | screenShareSubscribe (publisherId : String) (preferredTemporalLayer : ℤ)
  | screenShareUnsubscribe (publisherId : String)
  | screenShareModeChange (mode : ScreenShareMode)
  deriving DecidableEq

/-- `undefined` is left out. -/
def unlessUndefined {α : Type} (json : α → Value) (a : Option α) : Option Value := a.map json

/-- `null` is not. -/
def orNull {α : Type} (json : α → Value) (a : Option α) : Option Value := some (a.elim .null json)

def CandidateEnvelope.json (c : CandidateEnvelope) : Value :=
  object [("pc", some (.str c.pc.name)),
    ("publisherId", unlessEmpty c.publisherId),
    ("candidate", some (.str c.candidate)),
    ("sdpMid", orNull .str c.sdpMid),
    ("sdpMLineIndex", orNull (fun n => .num n.toNat) c.sdpMLineIndex),
    ("usernameFragment", orNull .str c.usernameFragment)]

def SentAttachment.json (a : SentAttachment) : Value :=
  object [("uploadId", some (.str a.uploadId)),
    ("kind", some (.str a.kind.name)),
    ("name", some (.str a.name)),
    ("mime", some (.str a.mime)),
    ("size", some (.num a.size)),
    ("width", unlessUndefined .num a.width),
    ("height", unlessUndefined .num a.height),
    ("blurThumb", unlessUndefined .str a.blurThumb)]

def ClientMessage.name : ClientMessage → String
  | .hello .. => "hello"
  | .offer _ => "offer"
  | .answer _ => "answer"
  | .candidate _ => "candidate"
  | .setDisplayName _ => "set-displayname"
  | .setState .. => "set-state"
  | .chatSend _ => "chat-send"
  | .chatDelete _ => "chat-delete"
  | .ping _ => "ping"
  | .renegotiate => "renegotiate"
  | .screenShareStart .. => "screen-share-start"
  | .screenShareStop => "screen-share-stop"
  | .screenShareResume _ => "screen-share-resume"
  | .screenShareSubscribe .. => "screen-share-subscribe"
  | .screenShareUnsubscribe _ => "screen-share-unsubscribe"
  | .screenShareModeChange _ => "screen-share-mode-change"

def ClientMessage.data : ClientMessage → Option Value
  | .hello displayName clientId chatOnly =>
    some (object [("displayName", some (.str displayName)), ("clientId", some (.str clientId)),
      ("chatOnly", unlessFalse chatOnly)])
  | .offer sdp | .answer sdp => some sdp.json
  | .candidate c => some c.json
  | .setDisplayName displayName => some (object [("displayName", some (.str displayName))])
  | .setState selfMuted deafened =>
    some (object [("selfMuted", some (.bool selfMuted)), ("deafened", some (.bool deafened))])
  | .chatSend chat =>
    some (object [("text", some (.str chat.text)), ("clientMsgId", some (.str chat.clientMsgId)),
      ("attachments", unlessUndefined (array SentAttachment.json) chat.attachments)])
  | .chatDelete id => some (object [("id", some (.str id))])
  | .ping target => some (object [("to", some (.str target))])
  | .renegotiate => none
  | .screenShareStart sdp hasSystemAudio mode =>
    some (object [("sdp", some (.str sdp)), ("hasSystemAudio", some (.bool hasSystemAudio)),
      ("mode", unlessNone modeName mode)])
  | .screenShareStop => some (object [])
  | .screenShareResume sessionToken => some (object [("sessionToken", some (.str sessionToken))])
  | .screenShareSubscribe publisherId preferredTemporalLayer =>
    some (object [("publisherId", some (.str publisherId)),
      ("preferredTemporalLayer", some (.num preferredTemporalLayer))])
  | .screenShareUnsubscribe publisherId => some (object [("publisherId", some (.str publisherId))])
  | .screenShareModeChange mode => some (object [("mode", some (.str (modeName mode)))])

/-- `JSON.stringify({ event, data })`. -/
def ClientMessage.json (m : ClientMessage) : Value :=
  object [("event", some (.str m.name)), ("data", m.data)]

/-! ## What the room reads -/

structure Hello where
  displayName : String
  clientId : String
  chatOnly : Bool
  deriving DecidableEq

/-- `Hello::default()`. -/
def Hello.default : Hello := ⟨"", "", false⟩

/-- A message with its data. -/
inductive Request
  | ping (target : String)
  | chatSend (chat : ChatSend)
  | chatDelete (id : String)
  | answer (sdp : SdpEnvelope)
  | candidate (candidate : CandidateEnvelope)
  | setDisplayName (displayName : String)
  | setState (selfMuted deafened : Bool)
  | renegotiate
  | offer (sdp : SdpEnvelope)
  | screenShareStart (sdp : String) (hasSystemAudio : Bool) (mode : Option ScreenShareMode)
  | screenShareStop
  | screenShareResume (sessionToken : String)
  | screenShareSubscribe (publisherId : String) (preferredTemporalLayer : UInt8)
  | screenShareUnsubscribe (publisherId : String)
  | screenShareModeChange (mode : Option ScreenShareMode)
  deriving DecidableEq

def deString (v : Option Value) : Option String := orDefault asString "" v

def deBool (v : Option Value) : Option Bool := orDefault asBool false v

def asI64 (v : Option Value) : Option Int64 := (asInt (-2 ^ 63) (2 ^ 63 - 1) v).map .ofInt

def asU16 (v : Option Value) : Option UInt16 :=
  (asInt 0 (2 ^ 16 - 1) v).map fun n => .ofNat n.toNat

def asU8 (v : Option Value) : Option UInt8 := (asInt 0 (2 ^ 8 - 1) v).map fun n => .ofNat n.toNat

def deI64 (v : Option Value) : Option Int64 := orDefault asI64 0 v

def deU8 (v : Option Value) : Option UInt8 := orDefault asU8 0 v

def deOption {α : Type} (read : Option Value → Option α) (v : Option Value) : Option (Option α) :=
  orDefault (asOption read) none v

/-- Unknown modes fall back to none, and must not fail the whole message. -/
def deMode (v : Option Value) : Option (Option ScreenShareMode) :=
  (deOption asString v).map fun
    | some "sharp" => some .sharp
    | some "motion" => some .motion
    | _ => none

def deSdpEnvelope (v : Value) : Option SdpEnvelope := do
  let f ← asStruct ["pc", "publisherId", "type", "sdp"] v
  let pc ← readPcKind (f "pc")
  let publisherId ← deString (f "publisherId")
  let kind ← asString (f "type")
  let sdp ← asString (f "sdp")
  some { pc, publisherId, kind, sdp }

def deCandidateEnvelope (v : Value) : Option CandidateEnvelope := do
  let f ← asStruct
    ["pc", "publisherId", "candidate", "sdpMid", "sdpMLineIndex", "usernameFragment"] v
  let pc ← readPcKind (f "pc")
  let publisherId ← deString (f "publisherId")
  let candidate ← deString (f "candidate")
  let sdpMid ← deOption asString (f "sdpMid")
  let sdpMLineIndex ← deOption asU16 (f "sdpMLineIndex")
  let usernameFragment ← deOption asString (f "usernameFragment")
  some { pc, publisherId, candidate, sdpMid, sdpMLineIndex, usernameFragment }

def deHello (v : Value) : Option Hello := do
  let f ← asStruct ["displayName", "clientId", "chatOnly"] v
  let displayName ← deString (f "displayName")
  let clientId ← deString (f "clientId")
  let chatOnly ← deBool (f "chatOnly")
  some { displayName, clientId, chatOnly }

def deAttachment (v : Value) : Option (Attachment Int64) := do
  let f ← asStruct
    ["uploadId", "kind", "name", "mime", "size", "width", "height", "blurThumb"] v
  let uploadId ← deString (f "uploadId")
  let kind ← deString (f "kind")
  let name ← deString (f "name")
  let mime ← deString (f "mime")
  let size ← deI64 (f "size")
  let width ← deI64 (f "width")
  let height ← deI64 (f "height")
  let blurThumb ← deString (f "blurThumb")
  some { uploadId, kind, name, mime, size, width, height, blurThumb }

def deChatSend (v : Value) : Option ChatSend := do
  let f ← asStruct ["text", "clientMsgId", "attachments"] v
  let text ← deString (f "text")
  let clientMsgId ← deString (f "clientMsgId")
  let attachments ← deOption (asVec deAttachment) (f "attachments")
  some { text, clientMsgId, attachments }

/-- The one field of a struct. -/
def deField (name : String) (v : Value) : Option String := do
  let f ← asStruct [name] v
  deString (f name)

def deSetState (v : Value) : Option Request := do
  let f ← asStruct ["selfMuted", "deafened"] v
  let selfMuted ← deBool (f "selfMuted")
  let deafened ← deBool (f "deafened")
  some (.setState selfMuted deafened)

def deScreenShareStart (v : Value) : Option Request := do
  let f ← asStruct ["sdp", "hasSystemAudio", "mode"] v
  let sdp ← deString (f "sdp")
  let hasSystemAudio ← deBool (f "hasSystemAudio")
  let mode ← deMode (f "mode")
  some (.screenShareStart sdp hasSystemAudio mode)

def deScreenShareSubscribe (v : Value) : Option Request := do
  let f ← asStruct ["publisherId", "preferredTemporalLayer"] v
  let publisherId ← deString (f "publisherId")
  let preferredTemporalLayer ← deU8 (f "preferredTemporalLayer")
  some (.screenShareSubscribe publisherId preferredTemporalLayer)

def deScreenShareModeChange (v : Value) : Option Request := do
  let f ← asStruct ["mode"] v
  let mode ← deMode (f "mode")
  some (.screenShareModeChange mode)

/-- `Envelope`: the event and its data, `null` where there is none. -/
def deEnvelope (raw : Option Value) : Option (String × Value) := do
  let v ← raw
  let f ← asStruct ["event", "data"] v
  let event ← asString (f "event")
  some (event, (f "data").getD .null)

/-- The first message of a connection: nothing else than a `hello` is let in, and one that cannot
be read is empty. -/
def readHello (raw : Option Value) : Option Hello :=
  (deEnvelope raw).bind fun env =>
    if env.1 = "hello" then some ((deHello env.2).getD .default) else none

/-- The request of an event. -/
def readRequest (event : String) (data : Value) : Option Request :=
  match event with
  | "chat-send" => (deChatSend data).map .chatSend
  | "chat-delete" => (deField "id" data).map .chatDelete
  | "answer" => (deSdpEnvelope data).map .answer
  | "candidate" => (deCandidateEnvelope data).map .candidate
  | "set-displayname" => (deField "displayName" data).map .setDisplayName
  | "set-state" => deSetState data
  | "renegotiate" => some .renegotiate
  | "offer" => (deSdpEnvelope data).map .offer
  | "screen-share-start" => deScreenShareStart data
  | "screen-share-stop" => some .screenShareStop
  | "screen-share-resume" => (deField "sessionToken" data).map .screenShareResume
  | "screen-share-subscribe" => deScreenShareSubscribe data
  | "screen-share-unsubscribe" => (deField "publisherId" data).map .screenShareUnsubscribe
  | "screen-share-mode-change" => deScreenShareModeChange data
  | _ => none

/-- `handle_client_message`, up to what is done for the request. -/
def handleClientMessage (chatOnly : Bool) (raw : Option Value) : Option Request :=
  (deEnvelope raw).bind fun env =>
    if env.1 = "ping" then (deField "to" env.2).map .ping
    -- Lurkers may only send and retract chat; everything else drops.
    else if chatOnly = true ∧ env.1 ≠ "chat-send" ∧ env.1 ≠ "chat-delete" then none
    else readRequest env.1 env.2

/-! ## What arrives -/

/-- `Number.isSafeInteger`. -/
def SafeInteger (n : ℤ) : Prop := -2 ^ 53 < n ∧ n < 2 ^ 53

instance : DecidablePred SafeInteger := fun _ => inferInstanceAs (Decidable (_ ∧ _))

/-- Its numbers are written with all their digits. -/
structure SentAttachment.Safe (a : SentAttachment) : Prop where
  size : SafeInteger a.size
  width : ∀ n ∈ a.width, SafeInteger n
  height : ∀ n ∈ a.height, SafeInteger n

def ChatSendPayload.Safe (chat : ChatSendPayload) : Prop :=
  ∀ a ∈ chat.attachments.getD [], a.Safe

/-- Its numbers are in bounds. -/
def ClientMessage.Safe : ClientMessage → Prop
  | .chatSend chat => chat.Safe
  | .screenShareSubscribe _ preferredTemporalLayer =>
    0 ≤ preferredTemporalLayer ∧ preferredTemporalLayer ≤ 2 ^ 8 - 1
  | _ => True

/-- What lurkers may send. -/
def ClientMessage.isChat : ClientMessage → Bool
  | .chatSend _ | .chatDelete _ | .ping _ => true
  | _ => false

/-- What is left out has its default. -/
def SentAttachment.received (a : SentAttachment) : Attachment ℤ where
  uploadId := a.uploadId
  kind := a.kind.name
  name := a.name
  mime := a.mime
  size := a.size
  width := a.width.getD 0
  height := a.height.getD 0
  blurThumb := a.blurThumb.getD ""

def ChatSendPayload.received (chat : ChatSendPayload) : ChatSend where
  text := chat.text
  clientMsgId := chat.clientMsgId
  attachments := chat.attachments.map fun as => as.map fun a => a.received.mapNum .ofInt

/-- The request that a message is. -/
def ClientMessage.request : ClientMessage → Option Request
  | .hello .. => none
  | .offer sdp => some (.offer sdp)
  | .answer sdp => some (.answer sdp)
  | .candidate c => some (.candidate c)
  | .setDisplayName displayName => some (.setDisplayName displayName)
  | .setState selfMuted deafened => some (.setState selfMuted deafened)
  | .chatSend chat => some (.chatSend chat.received)
  | .chatDelete id => some (.chatDelete id)
  | .ping target => some (.ping target)
  | .renegotiate => some .renegotiate
  | .screenShareStart sdp hasSystemAudio mode => some (.screenShareStart sdp hasSystemAudio mode)
  | .screenShareStop => some .screenShareStop
  | .screenShareResume sessionToken => some (.screenShareResume sessionToken)
  | .screenShareSubscribe publisherId preferredTemporalLayer =>
    some (.screenShareSubscribe publisherId (.ofNat preferredTemporalLayer.toNat))
  | .screenShareUnsubscribe publisherId => some (.screenShareUnsubscribe publisherId)
  | .screenShareModeChange mode => some (.screenShareModeChange (some mode))

/-! ### Fields -/

@[simp] lemma deString_some (s : String) : deString (some (.str s)) = some s := rfl

@[simp] lemma deBool_some (b : Bool) : deBool (some (.bool b)) = some b := rfl

@[simp] lemma deString_unlessEmpty (s : String) : deString (unlessEmpty s) = some s := by
  unfold unlessEmpty
  split
  · next h => simp [deString, orDefault, h]
  · rfl

@[simp] lemma deBool_unlessFalse (b : Bool) : deBool (unlessFalse b) = some b := by
  cases b <;> rfl

@[simp] lemma deString_unlessUndefined (s : Option String) :
    deString (unlessUndefined .str s) = some (s.getD "") := by
  cases s <;> rfl

lemma SafeInteger.deI64 {n : ℤ} (h : SafeInteger n) : deI64 (some (.num n)) = some (.ofInt n) := by
  have hin : -2 ^ 63 ≤ n ∧ n ≤ 2 ^ 63 - 1 := by
    unfold SafeInteger at h
    omega
  rw [Wire.deI64, orDefault, asI64, asInt_num hin, Option.map_some]

lemma deI64_unlessUndefined {n : Option ℤ} (h : ∀ k ∈ n, SafeInteger k) :
    deI64 (unlessUndefined .num n) = some (.ofInt (n.getD 0)) := by
  cases n with
  | none => rfl
  | some k => exact (h k rfl).deI64

@[simp] lemma deOption_orNull {α : Type} {read : Option Value → Option α} {json : α → Value}
    (h : ∀ a, asOption read (some (json a)) = some (some a)) (a : Option α) :
    deOption read (orNull json a) = some a := by
  cases a with
  | none => rfl
  | some a => exact h a

@[simp] lemma deMode_unlessNone (mode : Option ScreenShareMode) :
    deMode (unlessNone modeName mode) = some mode := by
  rcases mode with _ | mode
  · rfl
  · cases mode <;> rfl

lemma deMode_name (mode : ScreenShareMode) :
    deMode (some (.str (modeName mode))) = some (some mode) := by
  cases mode <;> rfl

lemma deSdpEnvelope_json (s : SdpEnvelope) : deSdpEnvelope s.json = some s := by
  simp [deSdpEnvelope, SdpEnvelope.json, asStruct_object, List.lookup, asString]

lemma deCandidateEnvelope_json (c : CandidateEnvelope) : deCandidateEnvelope c.json = some c := by
  have hstr (s : String) : asOption asString (some (.str s)) = some (some s) := rfl
  have hnum (n : UInt16) : asOption asU16 (some (.num n.toNat)) = some (some n) := by
    have hin : (0 : ℤ) ≤ n.toNat ∧ (n.toNat : ℤ) ≤ 2 ^ 16 - 1 := by
      have hlt := n.toNat_lt
      omega
    rw [asOption, asU16, asInt_num hin]
    · simp
    · simp
  simp [deCandidateEnvelope, CandidateEnvelope.json, asStruct_object, List.lookup,
    deOption_orNull hstr, deOption_orNull hnum]

lemma SentAttachment.Safe.deAttachment {a : SentAttachment} (h : a.Safe) :
    deAttachment a.json = some (a.received.mapNum .ofInt) := by
  simp [Wire.deAttachment, SentAttachment.json, asStruct_object, List.lookup, h.size.deI64,
    deI64_unlessUndefined h.width, deI64_unlessUndefined h.height, SentAttachment.received,
    Attachment.mapNum]

lemma ChatSendPayload.Safe.deChatSend {chat : ChatSendPayload} (h : chat.Safe) {data : Value}
    (hdata : (ClientMessage.chatSend chat).data = some data) :
    deChatSend data = some chat.received := by
  obtain rfl := Option.some.inj hdata
  have hatts : deOption (asVec Wire.deAttachment)
      (unlessUndefined (array SentAttachment.json) chat.attachments) =
        some chat.received.attachments := by
    cases hatts : chat.attachments with
    | none => simp [unlessUndefined, deOption, orDefault, ChatSendPayload.received, hatts]
    | some as =>
      have hread : asVec Wire.deAttachment (some (.arr (as.map SentAttachment.json))) =
          some (as.map fun a => a.received.mapNum .ofInt) := by
        refine asVec_arr fun a ha => (h a ?_).deAttachment
        rw [hatts]
        exact ha
      simp [unlessUndefined, deOption, orDefault, asOption, array, hread,
        ChatSendPayload.received, hatts]
  simp [Wire.deChatSend, asStruct_object, List.lookup, hatts, ChatSendPayload.received]

lemma deField_object (name : String) (s : String) :
    deField name (object [(name, some (.str s))]) = some s := by
  simp [deField, asStruct_object, List.lookup]

lemma deSetState_object (selfMuted deafened : Bool) :
    deSetState (object
      [("selfMuted", some (.bool selfMuted)), ("deafened", some (.bool deafened))]) =
      some (.setState selfMuted deafened) := by
  simp [deSetState, asStruct_object, List.lookup]

lemma deScreenShareStart_object (sdp : String) (audio : Bool) (mode : Option ScreenShareMode) :
    deScreenShareStart (object [("sdp", some (.str sdp)), ("hasSystemAudio", some (.bool audio)),
      ("mode", unlessNone modeName mode)]) = some (.screenShareStart sdp audio mode) := by
  simp [deScreenShareStart, asStruct_object, List.lookup]

lemma deScreenShareSubscribe_object (publisherId : String) {layer : ℤ}
    (h : 0 ≤ layer ∧ layer ≤ 2 ^ 8 - 1) :
    deScreenShareSubscribe (object [("publisherId", some (.str publisherId)),
      ("preferredTemporalLayer", some (.num layer))]) =
        some (.screenShareSubscribe publisherId (.ofNat layer.toNat)) := by
  have hlayer : deU8 (some (.num layer)) = some (.ofNat layer.toNat) := by
    rw [deU8, orDefault, asU8, asInt_num h, Option.map_some]
  simp [deScreenShareSubscribe, asStruct_object, List.lookup, hlayer]

lemma deScreenShareModeChange_object (mode : ScreenShareMode) :
    deScreenShareModeChange (object [("mode", some (.str (modeName mode)))]) =
      some (.screenShareModeChange (some mode)) := by
  simp [deScreenShareModeChange, asStruct_object, List.lookup, deMode_name]

/-! ### Messages -/

lemma deEnvelope_json (m : ClientMessage) :
    deEnvelope (some m.json) = some (m.name, m.data.getD .null) := by
  simp [deEnvelope, ClientMessage.json, asStruct_object, List.lookup, asString]

lemma readRequest_data (m : ClientMessage) (h : m.Safe) (hping : m.name ≠ "ping") :
    readRequest m.name (m.data.getD .null) = m.request := by
  cases m with
  | hello | renegotiate | screenShareStop => rfl
  | ping => exact absurd rfl hping
  | offer sdp | answer sdp => exact congrArg (Option.map _) (deSdpEnvelope_json sdp)
  | candidate c => exact congrArg (Option.map _) (deCandidateEnvelope_json c)
  | setDisplayName name => exact congrArg (Option.map _) (deField_object "displayName" name)
  | setState selfMuted deafened => exact deSetState_object selfMuted deafened
  | chatSend chat =>
    exact congrArg (Option.map _) (ChatSendPayload.Safe.deChatSend h rfl)
  | chatDelete id => exact congrArg (Option.map _) (deField_object "id" id)
  | screenShareStart sdp audio mode => exact deScreenShareStart_object sdp audio mode
  | screenShareResume token => exact congrArg (Option.map _) (deField_object "sessionToken" token)
  | screenShareSubscribe publisherId layer => exact deScreenShareSubscribe_object publisherId h
  | screenShareUnsubscribe publisherId =>
    exact congrArg (Option.map _) (deField_object "publisherId" publisherId)
  | screenShareModeChange mode => exact deScreenShareModeChange_object mode

lemma handle_json (m : ClientMessage) (h : m.Safe) (chatOnly : Bool) :
    handleClientMessage chatOnly (some m.json) =
      if chatOnly = true ∧ m.isChat = false then none else m.request := by
  rw [handleClientMessage, deEnvelope_json, Option.bind_some]
  by_cases hping : m.name = "ping"
  · rw [if_pos hping]
    cases m with
    | ping target =>
      simp [ClientMessage.data, ClientMessage.request, ClientMessage.isChat, deField_object]
    | _ => simp [ClientMessage.name] at hping
  · have hlurks : (m.name ≠ "chat-send" ∧ m.name ≠ "chat-delete") ↔ m.isChat = false := by
      cases m with
      | ping target => exact absurd rfl hping
      | _ => simp [ClientMessage.name, ClientMessage.isChat]
    rw [if_neg hping, readRequest_data m h hping]
    exact if_congr (and_congr_right fun _ => hlurks) rfl rfl

/-- **What rooms read.** A `hello` opens a connection, with the names it was sent with, and
nothing else does; after it every message is the request it was sent as, except that of a lurker
only chat messages, their retraction and pings get through. -/
theorem requests_read (m : ClientMessage) (h : m.Safe) (chatOnly : Bool) :
    handleClientMessage chatOnly (some m.json) =
      (if chatOnly = true ∧ m.isChat = false then none else m.request) ∧
    readHello (some m.json) =
      match m with
      | .hello displayName clientId lurks => some ⟨displayName, clientId, lurks⟩
      | _ => none := by
  refine ⟨handle_json m h chatOnly, ?_⟩
  rw [readHello, deEnvelope_json, Option.bind_some]
  cases m <;>
    simp [ClientMessage.name, ClientMessage.data, deHello, asStruct_object, List.lookup]

/-- A message with a picture. -/
def pictured : ChatSendPayload :=
  ⟨" look ", "m1", some [⟨"u1", .image, "a.png", "image/png", 1000, some 4, none, none⟩]⟩

lemma pictured_safe : pictured.Safe := by
  intro a ha
  obtain rfl := List.mem_singleton.mp ha
  refine ⟨by decide, fun n hn => ?_, fun n hn => by cases hn⟩
  obtain rfl := Option.some.inj hn
  decide

theorem requests_read_pictured :
    handleClientMessage true (some (ClientMessage.chatSend pictured).json) =
      some (.chatSend ⟨" look ", "m1",
        some [⟨"u1", "image", "a.png", "image/png", 1000, 4, 0, ""⟩]⟩) ∧
    readHello (some (ClientMessage.chatSend pictured).json) = none :=
  requests_read (.chatSend pictured) pictured_safe true

/-! ### Chat from one client to the others -/

lemma SafeInteger.toInt {n : ℤ} (h : SafeInteger n) :
    (Int64.ofInt n).toInt = n ∧ IsDouble (Int64.ofInt n).toInt := by
  have heq : (Int64.ofInt n).toInt = n := by
    unfold SafeInteger at h
    exact Int64.toInt_ofInt_of_le (by omega) (by omega)
  rw [heq]
  refine ⟨rfl, n.natAbs, 0, ?_, by omega⟩
  unfold SafeInteger at h
  omega

lemma SafeInteger.zero : SafeInteger 0 := by decide

lemma SentAttachment.Safe.readable {a : SentAttachment} (h : a.Safe) :
    (a.received.mapNum Int64.ofInt).Readable ∧
      (a.received.mapNum Int64.ofInt).mapNum Int64.toInt = a.received := by
  have hdefault {n : Option ℤ} (hn : ∀ k ∈ n, SafeInteger k) : SafeInteger (n.getD 0) := by
    cases n with
    | none => exact .zero
    | some k => exact hn k rfl
  have hsize := h.size.toInt
  have hwidth := (hdefault h.width).toInt
  have hheight := (hdefault h.height).toInt
  refine ⟨⟨?_, hsize.2, hwidth.2, hheight.2⟩, ?_⟩
  · cases hkind : a.kind <;> simp [SentAttachment.received, Attachment.mapNum, hkind,
      AttachmentKind.name]
  · simp only [Attachment.mapNum, SentAttachment.received, hsize.1, hwidth.1, hheight.1]

/-- What a message becomes for the others. -/
def ChatSendPayload.delivered (chat : ChatSendPayload) (id sender senderName : String) (ts : ℤ) :
    Chat ℤ where
  id := id
  sender := sender
  text := .ofList (Text.trim chat.text.toList)
  ts := ts
  clientMsgId := chat.clientMsgId
  senderName := senderName
  attachments := (chat.attachments.getD []).map SentAttachment.received

/-- **Chat is delivered.** Every message that a room relays, of a lurker too, reaches its clients
with the text its sender wrote, but for the blanks around it, with the same attachments and under
the sender's name. -/
theorem chat_delivered (room : ChatRoom) (sender : String) (chatOnly : Bool)
    (chat : ChatSendPayload) (hsafe : chat.Safe) (id : String) (ts : Int64)
    (hts : IsDouble ts.toInt) {c : Chat Int64} {request : ChatSend}
    (hread : handleClientMessage chatOnly (some (ClientMessage.chatSend chat).json) =
      some (.chatSend request))
    (hc : room.broadcastChat sender request id ts = some c) : ∃ name,
      room.displayName sender = some name ∧ receive (some (ServerEvent.chat c).envelope.parsed) =
        some (.chat (chat.delivered id sender name ts.toInt)) := by
  obtain rfl : request = chat.received := by
    have hrequest := handle_json (.chatSend chat) hsafe chatOnly
    rw [hread, if_neg (by simp [ClientMessage.isChat])] at hrequest
    exact Request.chatSend.inj (Option.some.inj hrequest)
  obtain ⟨name, hname, hbody⟩ := Option.bind_eq_some_iff.mp hc
  dsimp only at hbody
  split_ifs at hbody
  obtain rfl := Option.some.inj hbody
  have hatts : (chat.received.attachments.getD []).map (Attachment.mapNum Int64.toInt) =
      (chat.attachments.getD []).map SentAttachment.received := by
    cases hs : chat.attachments with
    | none => simp [ChatSendPayload.received, hs]
    | some as =>
      simp only [ChatSendPayload.received, hs, Option.map_some, Option.getD_some, List.map_map]
      refine List.map_congr_left fun a ha => (hsafe a ?_).readable.2
      rw [hs]
      exact ha
  have hreadable : ∀ a ∈ chat.received.attachments.getD [], a.Readable := by
    intro a ha
    cases hs : chat.attachments with
    | none =>
      rw [ChatSendPayload.received, hs] at ha
      cases ha
    | some as =>
      rw [ChatSendPayload.received, hs] at ha
      obtain ⟨b, hb, rfl⟩ := List.mem_map.mp ha
      refine (hsafe b ?_).readable.1
      rw [hs]
      exact hb
  refine ⟨name, hname, ?_⟩
  have hreceived := (chat_received ⟨id, sender, .ofList (Text.trim chat.received.text.toList), ts,
    chat.received.clientMsgId, name, chat.received.attachments.getD []⟩).mpr ⟨hts, hreadable⟩
  rw [hreceived, ServerEvent.mapNum, Chat.mapNum, hatts]
  rfl

theorem chat_delivered_pictured : ∃ name, smallRoom.displayName "p1" = some name ∧
    receive (some (ServerEvent.chat ⟨"01J", "p1", "look", 1700000000000, "m1", "Alice",
      [⟨"u1", "image", "a.png", "image/png", 1000, 4, 0, ""⟩]⟩).envelope.parsed) =
        some (.chat (pictured.delivered "01J" "p1" name 1700000000000)) :=
  chat_delivered smallRoom "p1" true pictured pictured_safe "01J" 1700000000000
    ⟨1700000000000, 0, by decide, by decide⟩
    (show handleClientMessage true (some (ClientMessage.chatSend pictured).json) =
      some (.chatSend ⟨" look ", "m1",
        some [⟨"u1", "image", "a.png", "image/png", 1000, 4, 0, ""⟩]⟩) by decide +kernel)
    (by decide +kernel)

end VoiceHub.Sfu.Wire
