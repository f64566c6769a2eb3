import Mathlib
import VoiceHub.Lib.Json
import VoiceHub.Sfu.Wire.Messages

/-!
The client's reading of a server message: the runtime guard, and the fields behind it.

`parseServerMessage` lets a message through whose required fields have the right types; the
fields are then taken as the types declare them, an optional one that is absent as its
default.
-/

namespace VoiceHub.Client.Protocol

open VoiceHub.Lib.Json VoiceHub.Sfu VoiceHub.Sfu.Wire

/-! ## The guard -/

def isString (v : Option Value) : Bool := (asString v).isSome

def isBoolean (v : Option Value) : Bool := (asBool v).isSome

def isNumber (v : Option Value) : Bool := (asNumber v).isSome

def isArray (v : Option Value) : Bool := (asArray v).isSome

/-- `typeof v === 'object' && v !== null`. -/
def isObject : Value → Bool
  | .obj _ => true
  | .arr _ => true
  | _ => false

/-- `v === 'a' || v === 'b'`, for the strings of a list. -/
def isOneOf (names : List String) (v : Option Value) : Bool := (asString v).any (· ∈ names)

def isPCKind (v : Option Value) : Bool := isOneOf ["audio", "screen-pub", "screen-sub"] v

def isScreenVideoCodec (v : Option Value) : Bool := isOneOf ["av1", "vp9"] v

def isScreenShareMode (v : Option Value) : Bool := isOneOf ["sharp", "motion"] v

def isValidAttachment (v : Value) : Bool :=
  isObject v && isString (v.field "uploadId") && isOneOf ["image", "file"] (v.field "kind") &&
    isString (v.field "name") && isString (v.field "mime") && isNumber (v.field "size")

def hasId (d : Value) : Bool := isString (d.field "id")

def isSessionDescription (d : Value) : Bool :=
  isString (d.field "type") && isString (d.field "sdp") && isPCKind (d.field "pc")

def hasLayers (d : Value) : Bool := isArray (d.field "layers")

def isSlot (s : Value) : Bool :=
  isString (s.field "slot") &&
    match s.field "peerId" with
    | some .null => true
    | v => isString v

/-- `Array.isArray(v) && v.every(p)`. -/
def isArrayOf (p : Value → Bool) (v : Option Value) : Bool := (asArray v).any fun xs => xs.all p

/-- `v === undefined || p(v)`, and `!(key in d) || p(d.key)`. -/
def isAbsentOr (p : Option Value → Bool) (v : Option Value) : Bool := v.isNone || p v

/-- `VALID_PAYLOAD`. -/
def validPayload : List (String × (Value → Bool)) :=
  [("welcome", fun d => hasId d && isArray (d.field "peers")),
   ("peer-joined", hasId),
   ("peer-info", hasId),
   ("peer-left", hasId),
   ("peer-state", fun d =>
     hasId d && isBoolean (d.field "selfMuted") && isBoolean (d.field "deafened")),
   ("audio-slots", fun d => isArrayOf isSlot (d.field "slots")),
   ("offer", isSessionDescription),
   ("answer", isSessionDescription),
   ("candidate", fun d => isString (d.field "candidate") && isPCKind (d.field "pc")),
   ("screen-share-started", fun d => isString (d.field "sessionToken")),
   ("screen-share-available", fun d =>
     isString (d.field "publisherId") && isBoolean (d.field "hasSystemAudio") &&
       isAbsentOr isScreenVideoCodec (d.field "videoCodec") &&
       isAbsentOr isScreenShareMode (d.field "mode")),
   ("screen-share-mode-changed", fun d =>
     isString (d.field "publisherId") && isScreenShareMode (d.field "mode")),
   ("screen-share-ended", fun d => isString (d.field "publisherId")),
   ("screen-share-error", fun d => isString (d.field "reason")),
   ("screen-share-encode-pause", hasLayers),
   ("screen-share-encode-resume", hasLayers),
   ("chat", fun d =>
     isString (d.field "id") && isString (d.field "from") && isString (d.field "text") &&
       isNumber (d.field "ts") &&
       isAbsentOr (isArrayOf isValidAttachment) (d.field "attachments")),
   ("chat-deleted", hasId),
   ("ping", fun d => isString (d.field "from") && isString (d.field "fromName"))]

/-- `parseServerMessage`, from what `JSON.parse` made of the text, if it was JSON. -/
def parseServerMessage (parsed : Option Value) : Option (String × Value) := do
  let parsed ← parsed
  let event ← asString (parsed.field "event")
  let valid ← validPayload.lookup event
  let data ← parsed.field "data"
  if isObject data && valid data then some (event, data) else none

/-! ## The fields -/

/-- The value with this name. -/
def named {α : Type} (names : List (String × α)) (v : Option Value) : Option α :=
  (asString v).bind fun name => names.lookup name

def readPcKind : Option Value → Option PcKind :=
  named [("audio", .audio), ("screen-pub", .screenPub), ("screen-sub", .screenSub)]

def readCodec : Option Value → Option ScreenVideoCodec := named [("av1", .av1), ("vp9", .vp9)]

def readMode : Option Value → Option ScreenShareMode :=
  named [("sharp", .sharp), ("motion", .motion)]

def readReason : Option Value → Option ScreenShareReason :=
  named [("not-found", .notFound), ("invalid-token", .invalidToken),
    ("already-publishing", .alreadyPublishing), ("internal", .internal)]

def readPeerInfo (d : Value) : Option PeerInfo := do
  let id ← asString (d.field "id")
  let displayName ← orDefault asString "" (d.field "displayName")
  let clientId ← orDefault asString "" (d.field "clientId")
  let selfMuted ← orDefault asBool false (d.field "selfMuted")
  let deafened ← orDefault asBool false (d.field "deafened")
  let chatOnly ← orDefault asBool false (d.field "chatOnly")
  let screenSharing ← orDefault asBool false (d.field "screenSharing")
  let screenSharingHasAudio ← orDefault asBool false (d.field "screenSharingHasAudio")
  let screenSharingVideoCodec ←
    orDefault (fun v => (readCodec v).map some) none (d.field "screenSharingVideoCodec")
  some { id, displayName, clientId, selfMuted, deafened, chatOnly, screenSharing,
         screenSharingHasAudio, screenSharingVideoCodec }

def readSdp (d : Value) : Option SdpEnvelope := do
  let pc ← readPcKind (d.field "pc")
  let publisherId ← orDefault asString "" (d.field "publisherId")
  let kind ← asString (d.field "type")
  let sdp ← asString (d.field "sdp")
  some { pc, publisherId, kind, sdp }

def readSlot (s : Value) : Option AudioSlot := do
  let slot ← asString (s.field "slot")
  let peerId ←
    match s.field "peerId" with
    | some .null => some none
    | v => (asString v).map some
  some { slot, peerId }

def readAttachment (d : Value) : Option (Attachment ℤ) := do
  let uploadId ← asString (d.field "uploadId")
  let kind ← asString (d.field "kind")
  let name ← asString (d.field "name")
  let mime ← asString (d.field "mime")
  let size ← asNumber (d.field "size")
  let width ← orDefault asNumber 0 (d.field "width")
  let height ← orDefault asNumber 0 (d.field "height")
  let blurThumb ← orDefault asString "" (d.field "blurThumb")
  some { uploadId, kind, name, mime, size, width, height, blurThumb }

/-- The elements of an array, each read. -/
def readArray {α : Type} (read : Value → Option α) (v : Option Value) : Option (List α) :=
  (asArray v).bind (·.mapM read)

def readChat (d : Value) : Option (Chat ℤ) := do
  let id ← asString (d.field "id")
  let sender ← asString (d.field "from")
  let text ← asString (d.field "text")
  let ts ← asNumber (d.field "ts")
  let clientMsgId ← orDefault asString "" (d.field "clientMsgId")
  let senderName ← orDefault asString "" (d.field "senderName")
  let attachments ← orDefault (readArray readAttachment) [] (d.field "attachments")
  some { id, sender, text, ts, clientMsgId, senderName, attachments }

/-- A 32-bit number. -/
def readInt32 (v : Value) : Option Int32 := (asNumber (some v)).map Int32.ofInt

/-- The event that a message is, by its name. -/
def readEvent (event : String) (d : Value) : Option (ServerEvent ℤ) :=
  match event with
  | "welcome" => do
    let id ← asString (d.field "id")
    let peers ← readArray readPeerInfo (d.field "peers")
    some (.welcome id peers)
  | "peer-joined" => (readPeerInfo d).map .peerJoined
  | "peer-info" => (readPeerInfo d).map .peerInfo
  | "peer-left" => (asString (d.field "id")).map .peerLeft
  | "peer-state" => do
    let id ← asString (d.field "id")
    let selfMuted ← asBool (d.field "selfMuted")
    let deafened ← asBool (d.field "deafened")
    some (.peerState id selfMuted deafened)
  | "audio-slots" => (readArray readSlot (d.field "slots")).map .audioSlots
  | "chat" => (readChat d).map .chat
  | "chat-deleted" => (asString (d.field "id")).map .chatDeleted
  | "ping" => do
    let sender ← asString (d.field "from")
    let fromName ← asString (d.field "fromName")
    some (.ping sender fromName)
  | "offer" => (readSdp d).map .offer
  | "answer" => (readSdp d).map .answer
  | "screen-share-started" => (asString (d.field "sessionToken")).map .screenShareStarted
  | "screen-share-available" => do
    let publisherId ← asString (d.field "publisherId")
    let hasSystemAudio ← asBool (d.field "hasSystemAudio")
    let videoCodec ← orDefault (fun v => (readCodec v).map some) none (d.field "videoCodec")
    let mode ← orDefault (fun v => (readMode v).map some) none (d.field "mode")
    some (.screenShareAvailable publisherId hasSystemAudio videoCodec mode)
  | "screen-share-ended" => (asString (d.field "publisherId")).map .screenShareEnded
  | "screen-share-error" => do
    let publisherId ← orDefault asString "" (d.field "publisherId")
    let reason ← readReason (d.field "reason")
    some (.screenShareError publisherId reason)
  | "screen-share-encode-pause" =>
    (readArray readInt32 (d.field "layers")).map .screenShareEncodePause
  | "screen-share-encode-resume" =>
    (readArray readInt32 (d.field "layers")).map .screenShareEncodeResume
  | "screen-share-mode-changed" => do
    let publisherId ← asString (d.field "publisherId")
    let mode ← readMode (d.field "mode")
    some (.screenShareModeChanged publisherId mode)
  | _ => none

/-- What a client makes of a message. -/
def receive (parsed : Option Value) : Option (ServerEvent ℤ) :=
  (parseServerMessage parsed).bind fun m => readEvent m.1 m.2

end VoiceHub.Client.Protocol
