import Mathlib
import VoiceHub.Lib.Json
import VoiceHub.Sfu.Protocol

/-!
The messages of a room as JSON.

Every message is an object of an event's name and its data. Fields with a default are left
out; the numbers of a chat message are 64 bits wide on the server, and of type `N` here, so
that the same event can be what the server sends and what a client reads.
-/

namespace VoiceHub.Sfu.Wire

open VoiceHub.Lib.Json

inductive PcKind | audio | screenPub | screenSub
  deriving DecidableEq

/-- `offer` / `answer` data. -/
structure SdpEnvelope where
  pc : PcKind
  publisherId : String
  kind : String
  sdp : String
deriving DecidableEq

structure AudioSlot where
  slot : String
  peerId : Option String
deriving DecidableEq

/-- Metadata for one attachment. -/
structure Attachment (N : Type) where
  uploadId : String
  kind : String
  name : String
  mime : String
  size : N
  width : N
  height : N
  blurThumb : String
deriving DecidableEq

structure Chat (N : Type) where
  id : String
  sender : String
  text : String
  ts : N
  clientMsgId : String
  senderName : String
  attachments : List (Attachment N)
deriving DecidableEq

/-- The events a room serializes. -/
inductive ServerEvent (N : Type)
  | welcome (id : String) (peers : List PeerInfo)
  | peerJoined (info : PeerInfo)
  | peerInfo (info : PeerInfo)
  | peerLeft (id : String)
  | peerState (id : String) (selfMuted deafened : Bool)
  | audioSlots (slots : List AudioSlot)
  | chat (chat : Chat N)
  | chatDeleted (id : String)
  | ping (sender fromName : String)
  | offer (sdp : SdpEnvelope)
  | answer (sdp : SdpEnvelope)
  | screenShareStarted (sessionToken : String)
  | screenShareAvailable (publisherId : String) (hasSystemAudio : Bool)
      (videoCodec : Option ScreenVideoCodec) (mode : Option ScreenShareMode)
  | screenShareEnded (publisherId : String)
  | screenShareError (publisherId : String) (reason : ScreenShareReason)
  | screenShareEncodePause (layers : List Int32)
  | screenShareEncodeResume (layers : List Int32)
  | screenShareModeChanged (publisherId : String) (mode : ScreenShareMode)
deriving DecidableEq

/-! ## Numbers -/

def Attachment.mapNum {N M : Type} (f : N → M) (a : Attachment N) : Attachment M where
  uploadId := a.uploadId
  kind := a.kind
  name := a.name
  mime := a.mime
  size := f a.size
  width := f a.width
  height := f a.height
  blurThumb := a.blurThumb

def Chat.mapNum {N M : Type} (f : N → M) (c : Chat N) : Chat M where
  id := c.id
  sender := c.sender
  text := c.text
  ts := f c.ts
  clientMsgId := c.clientMsgId
  senderName := c.senderName
  attachments := c.attachments.map (Attachment.mapNum f)

/-- The event with other numbers in its chat message. -/
def ServerEvent.mapNum {N M : Type} (f : N → M) : ServerEvent N → ServerEvent M
  | .welcome id peers => .welcome id peers
  | .peerJoined info => .peerJoined info
  | .peerInfo info => .peerInfo info
  | .peerLeft id => .peerLeft id
  | .peerState id selfMuted deafened => .peerState id selfMuted deafened
  | .audioSlots slots => .audioSlots slots
  | .chat c => .chat (c.mapNum f)
  | .chatDeleted id => .chatDeleted id
  | .ping sender fromName => .ping sender fromName
  | .offer sdp => .offer sdp
  | .answer sdp => .answer sdp
  | .screenShareStarted sessionToken => .screenShareStarted sessionToken
  | .screenShareAvailable publisherId hasSystemAudio videoCodec mode =>
    .screenShareAvailable publisherId hasSystemAudio videoCodec mode
  | .screenShareEnded publisherId => .screenShareEnded publisherId
  | .screenShareError publisherId reason => .screenShareError publisherId reason
  | .screenShareEncodePause layers => .screenShareEncodePause layers
  | .screenShareEncodeResume layers => .screenShareEncodeResume layers
  | .screenShareModeChanged publisherId mode => .screenShareModeChanged publisherId mode

/-! ## Serialization -/

/-- `skip_serializing_if = "String::is_empty"`. -/
def unlessEmpty (s : String) : Option Value := if s = "" then none else some (.str s)

/-- `skip_serializing_if = "is_false"`. -/
def unlessFalse (b : Bool) : Option Value := if b then some (.bool b) else none

/-- `skip_serializing_if = "is_zero"`. -/
def unlessZero (n : Int64) : Option Value := if n = 0 then none else some (.num n.toInt)

/-- `skip_serializing_if = "Option::is_none"`. -/
def unlessNone {α : Type} (name : α → String) (a : Option α) : Option Value :=
  a.map fun c => .str (name c)

/-- A slice. -/
def array {α : Type} (json : α → Value) (as : List α) : Value := .arr (as.map json)

/-- `skip_serializing_if = "<[_]>::is_empty"`. -/
def unlessNil {α : Type} (json : α → Value) (as : List α) : Option Value :=
  if as.isEmpty then none else some (array json as)

def PcKind.name : PcKind → String
  | .audio => "audio"
  | .screenPub => "screen-pub"
  | .screenSub => "screen-sub"

def codecName : ScreenVideoCodec → String
  | .av1 => "av1"
  | .vp9 => "vp9"

def modeName : ScreenShareMode → String
  | .sharp => "sharp"
  | .motion => "motion"

def reasonName : ScreenShareReason → String
  | .notFound => "not-found"
  | .invalidToken => "invalid-token"
  | .alreadyPublishing => "already-publishing"
  | .internal => "internal"

def peerInfoJson (p : PeerInfo) : Value :=
  object [("id", some (.str p.id)),
    ("displayName", unlessEmpty p.displayName),
    ("clientId", unlessEmpty p.clientId),
    ("selfMuted", unlessFalse p.selfMuted),
    ("deafened", unlessFalse p.deafened),
    ("chatOnly", unlessFalse p.chatOnly),
    ("screenSharing", unlessFalse p.screenSharing),
    ("screenSharingHasAudio", unlessFalse p.screenSharingHasAudio),
    ("screenSharingVideoCodec", unlessNone codecName p.screenSharingVideoCodec)]

def SdpEnvelope.json (s : SdpEnvelope) : Value :=
  object [("pc", some (.str s.pc.name)),
    ("publisherId", unlessEmpty s.publisherId),
    ("type", some (.str s.kind)),
    ("sdp", some (.str s.sdp))]

/-- A `None` that is not skipped is `null`. -/
def AudioSlot.json (s : AudioSlot) : Value :=
  object [("slot", some (.str s.slot)), ("peerId", some (s.peerId.elim .null .str))]

def Attachment.json (a : Attachment Int64) : Value :=
  object [("uploadId", some (.str a.uploadId)),
    ("kind", some (.str a.kind)),
    ("name", some (.str a.name)),
    ("mime", some (.str a.mime)),
    ("size", some (.num a.size.toInt)),
    ("width", unlessZero a.width),
    ("height", unlessZero a.height),
    ("blurThumb", unlessEmpty a.blurThumb)]

def Chat.json (c : Chat Int64) : Value :=
  object [("id", some (.str c.id)),
    ("from", some (.str c.sender)),
    ("text", some (.str c.text)),
    ("ts", some (.num c.ts.toInt)),
    ("clientMsgId", unlessEmpty c.clientMsgId),
    ("senderName", unlessEmpty c.senderName),
    ("attachments", unlessNil Attachment.json c.attachments)]

def layersJson (layers : List Int32) : Value :=
  object [("layers", some (array (fun l => .num l.toInt) layers))]

/-- The name of an event. -/
def ServerEvent.name {N : Type} : ServerEvent N → String
  | .welcome .. => "welcome"
  | .peerJoined _ => "peer-joined"
  | .peerInfo _ => "peer-info"
  | .peerLeft _ => "peer-left"
  | .peerState .. => "peer-state"
  | .audioSlots _ => "audio-slots"
  | .chat _ => "chat"
  | .chatDeleted _ => "chat-deleted"
  | .ping .. => "ping"
  | .offer _ => "offer"
  | .answer _ => "answer"
  | .screenShareStarted _ => "screen-share-started"
  | .screenShareAvailable .. => "screen-share-available"
  | .screenShareEnded _ => "screen-share-ended"
  | .screenShareError .. => "screen-share-error"
  | .screenShareEncodePause _ => "screen-share-encode-pause"
  | .screenShareEncodeResume _ => "screen-share-encode-resume"
  | .screenShareModeChanged .. => "screen-share-mode-changed"

/-- The data of an event. -/
def ServerEvent.data : ServerEvent Int64 → Value
  | .welcome id peers =>
    object [("id", some (.str id)), ("peers", some (array peerInfoJson peers))]
  | .peerJoined info => peerInfoJson info
  | .peerInfo info => peerInfoJson info
  | .peerLeft id => object [("id", some (.str id))]
  | .peerState id selfMuted deafened =>
    object [("id", some (.str id)), ("selfMuted", some (.bool selfMuted)),
      ("deafened", some (.bool deafened))]
  | .audioSlots slots => object [("slots", some (array AudioSlot.json slots))]
  | .chat c => c.json
  | .chatDeleted id => object [("id", some (.str id))]
  | .ping sender fromName =>
    object [("from", some (.str sender)), ("fromName", some (.str fromName))]
  | .offer sdp => sdp.json
  | .answer sdp => sdp.json
  | .screenShareStarted sessionToken => object [("sessionToken", some (.str sessionToken))]
  | .screenShareAvailable publisherId hasSystemAudio videoCodec mode =>
    object [("publisherId", some (.str publisherId)),
      ("hasSystemAudio", some (.bool hasSystemAudio)),
      ("videoCodec", unlessNone codecName videoCodec),
      ("mode", unlessNone modeName mode)]
  | .screenShareEnded publisherId => object [("publisherId", some (.str publisherId))]
  | .screenShareError publisherId reason =>
    object [("publisherId", unlessEmpty publisherId), ("reason", some (.str (reasonName reason)))]
  | .screenShareEncodePause layers => layersJson layers
  | .screenShareEncodeResume layers => layersJson layers
  | .screenShareModeChanged publisherId mode =>
    object [("publisherId", some (.str publisherId)), ("mode", some (.str (modeName mode)))]

/-- `envelope(event, data)`. -/
def ServerEvent.envelope (e : ServerEvent Int64) : Value :=
  object [("event", some (.str e.name)), ("data", some e.data)]

end VoiceHub.Sfu.Wire
