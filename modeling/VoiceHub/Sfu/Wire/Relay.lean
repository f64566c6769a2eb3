import Mathlib
import VoiceHub.Lib.Json
import VoiceHub.Lib.Text
import VoiceHub.Sfu.Wire.Messages
import VoiceHub.Client.Protocol

/-!
What a room serializes is what its clients read.

A chat message is relayed as its sender wrote it, once the room has checked its text and its
uploads; every other event the room fills in itself.
-/

namespace VoiceHub.Sfu.Wire

open VoiceHub.Lib VoiceHub.Lib.Json VoiceHub.Client.Protocol

/-- Limit on the UTF-8 byte length of a chat message's text. -/
def CHAT_MAX_BYTES : ℕ := 2000
def CHAT_MAX_ATTACHMENTS : ℕ := 10

structure ChatSend where
  text : String
  clientMsgId : String
  attachments : Option (List (Attachment Int64))
deriving DecidableEq

/-- What a room looks at when it relays a chat message. -/
structure ChatRoom where
  roomId : String
  /-- The display names of the peers. -/
  displayName : String → Option String
  /-- The rooms of the live uploads. -/
  files : String → Option String

/-- Every attachment must be a live upload in this room. -/
def ChatRoom.attachmentsValid (room : ChatRoom) (atts : List (Attachment Int64)) : Bool :=
  if atts.isEmpty then true
  else if CHAT_MAX_ATTACHMENTS < atts.length then false
  else atts.all fun a =>
    a.uploadId ≠ "" && a.mime ≠ "" && (room.files a.uploadId).any (· = room.roomId)

/-- `broadcast_chat`: the message for the peers, if there is one. `id` and `ts` are made of the
time it is sent. -/
def ChatRoom.broadcastChat (room : ChatRoom) (sender : String) (cs : ChatSend) (id : String)
    (ts : Int64) : Option (Chat Int64) := do
  let name ← room.displayName sender
  -- Display name doubles as the "hello received" marker.
  if name = "" then none
  else
    let text := String.ofList (Text.trim cs.text.toList)
    let atts := cs.attachments.getD []
    if text = "" ∧ atts = [] then none
    else if CHAT_MAX_BYTES < text.utf8ByteSize then none
    else if !room.attachmentsValid atts then none
    else some { id, sender, text, ts, clientMsgId := cs.clientMsgId, senderName := name,
                attachments := atts }

/-- A client reads the event with the values the server gave it. -/
def Received (e : ServerEvent Int64) : Prop :=
  receive (some e.envelope.parsed) = some (e.mapNum Int64.toInt)

instance (e : ServerEvent Int64) : Decidable (Received e) :=
  inferInstanceAs (Decidable (_ = _))

/-- An attachment of a kind that clients know, with numbers that doubles hold. -/
structure Attachment.Readable (a : Attachment Int64) : Prop where
  kind : a.kind = "image" ∨ a.kind = "file"
  size : IsDouble a.size.toInt
  width : IsDouble a.width.toInt
  height : IsDouble a.height.toInt

/-! ## Fields -/

variable {f : ℤ → ℤ}

@[simp] lemma string_unlessEmpty (s : String) :
    orDefault asString "" ((unlessEmpty s).map (Value.mapNum f)) = some s := by
  unfold unlessEmpty
  split
  · next h => simp [orDefault, h]
  · simp [orDefault, asString]

@[simp] lemma bool_unlessFalse (b : Bool) :
    orDefault asBool false ((unlessFalse b).map (Value.mapNum f)) = some b := by
  cases b <;> simp [unlessFalse, orDefault, asBool]

@[simp] lemma number_unlessZero (n : Int64) (h : f 0 = 0) :
    orDefault asNumber 0 ((unlessZero n).map (Value.mapNum f)) = some (f n.toInt) := by
  unfold unlessZero
  split
  · next hn => simp [orDefault, hn, h]
  · simp [orDefault, asNumber]

@[simp] lemma readPcKind_name (pc : PcKind) : readPcKind (some (.str pc.name)) = some pc := by
  cases pc <;> rfl

@[simp] lemma readMode_name (m : ScreenShareMode) :
    readMode (some (.str (modeName m))) = some m := by
  cases m <;> rfl

@[simp] lemma readReason_name (r : ScreenShareReason) :
    readReason (some (.str (reasonName r))) = some r := by
  cases r <;> rfl

@[simp] lemma codec_unlessNone (c : Option ScreenVideoCodec) :
    orDefault (fun v => (readCodec v).map some) none
      ((unlessNone codecName c).map (Value.mapNum f)) = some c := by
  rcases c with _ | c
  · rfl
  · cases c <;> simp [unlessNone, orDefault, codecName] <;> rfl

@[simp] lemma mode_unlessNone (m : Option ScreenShareMode) :
    orDefault (fun v => (readMode v).map some) none
      ((unlessNone modeName m).map (Value.mapNum f)) = some m := by
  rcases m with _ | m
  · rfl
  · simp [unlessNone, orDefault]

lemma readPeerInfo_json (p : PeerInfo) : readPeerInfo ((peerInfoJson p).mapNum f) = some p := by
  simp [readPeerInfo, peerInfoJson, field_object, List.lookup, asString]

lemma readSdp_json (s : SdpEnvelope) : readSdp (s.json.mapNum f) = some s := by
  simp [readSdp, SdpEnvelope.json, field_object, List.lookup, asString]

lemma readSlot_json (s : AudioSlot) : readSlot (s.json.mapNum f) = some s := by
  obtain ⟨slot, peerId⟩ := s
  cases peerId <;> simp [readSlot, AudioSlot.json, field_object, List.lookup, asString]

lemma readAttachment_json (h : f 0 = 0) (a : Attachment Int64) :
    readAttachment (a.json.mapNum f) = some (a.mapNum fun n => f n.toInt) := by
  simp [readAttachment, Attachment.json, field_object, List.lookup, asString, asNumber, h,
    Attachment.mapNum]

lemma readArray_array {α β : Type} {read : Value → Option β} {json : α → Value} {g : α → β}
    (h : ∀ a, read ((json a).mapNum f) = some (g a)) (as : List α) :
    readArray read (some ((array json as).mapNum f)) = some (as.map g) := by
  simp only [readArray, array, mapNum_arr, asArray, Option.bind_some, List.map_map]
  induction as with
  | nil => rfl
  | cons a as ih => simp [h, ih]

lemma readArray_unlessNil {α β : Type} {read : Value → Option β} {json : α → Value} {g : α → β}
    (h : ∀ a, read ((json a).mapNum f) = some (g a)) (as : List α) :
    orDefault (readArray read) [] ((unlessNil json as).map (Value.mapNum f)) =
      some (as.map g) := by
  cases as with
  | nil => rfl
  | cons a as => exact readArray_array h (a :: as)

/-! ## Events -/

lemma toDouble_zero : toDouble 0 = 0 := by simp [toDouble]

lemma toDouble_int32 (n : Int32) : toDouble n.toInt = n.toInt := by
  rw [toDouble_eq_iff]
  have hlt := n.toInt_lt
  have hge := n.le_toInt
  exact ⟨n.toInt.natAbs, 0, by omega, by simp⟩

lemma readChat_json (c : Chat Int64) :
    readChat (c.json.mapNum toDouble) = some (c.mapNum fun n => toDouble n.toInt) := by
  have hatts := readArray_unlessNil (readAttachment_json toDouble_zero) c.attachments
  simp [readChat, Chat.json, field_object, List.lookup, asString, asNumber, hatts, Chat.mapNum]

lemma readEvent_data (e : ServerEvent Int64) :
    readEvent e.name e.data.parsed = some (e.mapNum fun n => toDouble n.toInt) := by
  have hpeers (peers : List PeerInfo) :
      readArray readPeerInfo (some ((array peerInfoJson peers).mapNum toDouble)) = some peers := by
    simpa using readArray_array (g := id) readPeerInfo_json peers
  have hslots (slots : List AudioSlot) :
      readArray readSlot (some ((array AudioSlot.json slots).mapNum toDouble)) = some slots := by
    simpa using readArray_array (g := id) readSlot_json slots
  have hlayers (layers : List Int32) :
      readArray readInt32 (some ((array (fun l => .num l.toInt) layers).mapNum toDouble)) =
        some layers := by
    have hlayer (l : Int32) : readInt32 ((Value.num l.toInt).mapNum toDouble) = some l := by
      simp [readInt32, asNumber, toDouble_int32]
    simpa using readArray_array (g := id) hlayer layers
  cases e <;>
    simp [ServerEvent.name, ServerEvent.data, readEvent, Value.parsed, field_object, List.lookup,
      asString, asBool, ServerEvent.mapNum, layersJson, readPeerInfo_json, readSdp_json,
      readChat_json, hpeers, hslots, hlayers]

/-! ## The guard -/

@[simp] lemma isObject_object (fields : List (String × Option Value)) :
    isObject (object fields) = true := rfl

lemma isSlot_json (s : AudioSlot) : isSlot (s.json.mapNum f) = true := by
  obtain ⟨slot, peerId⟩ := s
  cases peerId <;>
    simp [isSlot, AudioSlot.json, field_object, List.lookup, isString, asString]

lemma isValidAttachment_json (a : Attachment Int64) :
    isValidAttachment (a.json.mapNum f) = decide (a.kind = "image" ∨ a.kind = "file") := by
  simp [isValidAttachment, Attachment.json, field_object, List.lookup, isString, isNumber,
    isOneOf, asString, asNumber]

lemma asArray_array {α : Type} (json : α → Value) (as : List α) :
    asArray (some ((array json as).mapNum f)) = some (as.map fun a => (json a).mapNum f) := by
  simp [array, asArray]

lemma isAbsentOr_unlessNil {α : Type} {json : α → Value} {p : Value → Bool} {q : α → Bool}
    (h : ∀ a, p ((json a).mapNum f) = q a) (as : List α) :
    isAbsentOr (isArrayOf p) ((unlessNil json as).map (Value.mapNum f)) = as.all q := by
  cases as with
  | nil => rfl
  | cons a as =>
    have harray : isArrayOf p (some ((array json (a :: as)).mapNum f)) = (a :: as).all q := by
      rw [isArrayOf, asArray_array, Option.any_some, List.all_map]
      congr 1
      funext a
      exact h a
    exact harray

lemma isCodec_unlessNone (c : Option ScreenVideoCodec) :
    isAbsentOr isScreenVideoCodec ((unlessNone codecName c).map (Value.mapNum f)) = true := by
  rcases c with _ | c
  · rfl
  · cases c <;> simp [unlessNone, isAbsentOr, isScreenVideoCodec, isOneOf, asString, codecName]

lemma isMode_name (m : ScreenShareMode) :
    isScreenShareMode (some (.str (modeName m))) = true := by
  cases m <;> rfl

lemma isMode_unlessNone (m : Option ScreenShareMode) :
    isAbsentOr isScreenShareMode ((unlessNone modeName m).map (Value.mapNum f)) = true := by
  rcases m with _ | m
  · rfl
  · simp [unlessNone, isAbsentOr, isMode_name]

lemma isPCKind_name (pc : PcKind) : isPCKind (some (.str pc.name)) = true := by
  cases pc <;> rfl

/-- Whether the guard lets the event through: it does, unless an attachment of a chat message
is of another kind than the client knows. -/
def Passes : ServerEvent Int64 → Bool
  | .chat c => c.attachments.all fun a => a.kind = "image" ∨ a.kind = "file"
  | _ => true

lemma validPayload_data (e : ServerEvent Int64) :
    ∃ valid, validPayload.lookup e.name = some valid ∧ isObject e.data.parsed = true ∧
      valid e.data.parsed = Passes e := by
  have hslots (slots : List AudioSlot) :
      isArrayOf isSlot (some ((array AudioSlot.json slots).mapNum toDouble)) = true := by
    simp [isArrayOf, asArray_array, isSlot_json]
  have hatts (atts : List (Attachment Int64)) :=
    isAbsentOr_unlessNil (f := toDouble) isValidAttachment_json atts
  cases e <;> refine ⟨_, rfl, ?_, ?_⟩ <;>
    simp [ServerEvent.data, Value.parsed, peerInfoJson, SdpEnvelope.json, Chat.json, layersJson,
      field_object, List.lookup, hasId, isSessionDescription, hasLayers, isString, isBoolean,
      isNumber, isArray, asString, asBool, asNumber, asArray_array, isCodec_unlessNone,
      isMode_unlessNone, isMode_name, isPCKind_name, hslots, hatts, Passes]

lemma parse_envelope (e : ServerEvent Int64) :
    parseServerMessage (some e.envelope.parsed) =
      if Passes e then some (e.name, e.data.parsed) else none := by
  obtain ⟨valid, hlookup, hobject, hvalid⟩ := validPayload_data e
  have henvelope : e.envelope.parsed =
      object [("event", some (.str e.name)), ("data", some e.data.parsed)] := by
    simp [ServerEvent.envelope, Value.parsed]
  simp [henvelope, parseServerMessage, field_object, List.lookup, asString, hlookup, hobject,
    hvalid]

/-! ## What arrives -/

lemma received_of (e : ServerEvent Int64) : Received e ↔
    Passes e = true ∧ e.mapNum (fun n => toDouble n.toInt) = e.mapNum Int64.toInt := by
  rw [Received, receive, parse_envelope]
  cases Passes e with
  | true => simp [readEvent_data]
  | false => simp

lemma attachment_eq_iff (a : Attachment Int64) :
    a.mapNum (fun n => toDouble n.toInt) = a.mapNum Int64.toInt ↔
      IsDouble a.size.toInt ∧ IsDouble a.width.toInt ∧ IsDouble a.height.toInt := by
  simp [Attachment.mapNum, toDouble_eq_iff]

lemma chat_eq_iff (c : Chat Int64) :
    c.mapNum (fun n => toDouble n.toInt) = c.mapNum Int64.toInt ↔
      IsDouble c.ts.toInt ∧ ∀ a ∈ c.attachments,
        IsDouble a.size.toInt ∧ IsDouble a.width.toInt ∧ IsDouble a.height.toInt := by
  simp [Chat.mapNum, toDouble_eq_iff, attachment_eq_iff]

lemma chat_received (c : Chat Int64) :
    Received (.chat c) ↔ IsDouble c.ts.toInt ∧ ∀ a ∈ c.attachments, a.Readable := by
  rw [received_of, ServerEvent.mapNum, ServerEvent.mapNum, ServerEvent.chat.injEq, chat_eq_iff,
    Passes, List.all_eq_true]
  constructor
  · rintro ⟨hkind, hts, hnum⟩
    refine ⟨hts, fun a ha => ?_⟩
    obtain ⟨hsize, hwidth, hheight⟩ := hnum a ha
    exact ⟨by simpa using hkind a ha, hsize, hwidth, hheight⟩
  · rintro ⟨hts, hread⟩
    refine ⟨fun a ha => by simpa using (hread a ha).kind, hts, fun a ha => ?_⟩
    exact ⟨(hread a ha).size, (hread a ha).width, (hread a ha).height⟩

lemma broadcastChat_eq {room : ChatRoom} {sender id : String} {cs : ChatSend} {ts : Int64}
    {c : Chat Int64} (h : room.broadcastChat sender cs id ts = some c) :
    c.ts = ts ∧ c.attachments = cs.attachments.getD [] := by
  obtain ⟨name, _, h⟩ := Option.bind_eq_some_iff.mp h
  dsimp only at h
  split_ifs at h
  obtain rfl := Option.some.inj h
  exact ⟨rfl, rfl⟩

/-- **What clients read.** A chat message that is relayed reaches the clients as it was sent
exactly if its attachments are readable; every other event reaches them as the room made it. -/
theorem received_iff (room : ChatRoom) (sender : String) (cs : ChatSend) (id : String)
    (ts : Int64) {c : Chat Int64} (hc : room.broadcastChat sender cs id ts = some c)
    {e : ServerEvent Int64} (he : ∀ c, e ≠ .chat c) :
    (Received (.chat c) ↔ IsDouble ts.toInt ∧ ∀ a ∈ cs.attachments.getD [], a.Readable) ∧
      Received e := by
  constructor
  · obtain ⟨rfl, hatts⟩ := broadcastChat_eq hc
    rw [chat_received, hatts]
  · rw [received_of]
    cases e with
    | chat c => exact absurd rfl (he c)
    | _ => exact ⟨rfl, rfl⟩

/-- A room with one peer, and one upload. -/
def smallRoom : ChatRoom where
  roomId := "r"
  displayName := fun id => if id = "p1" then some "Alice" else none
  files := fun id => if id = "u1" then some "r" else none

/-- A message with one attachment. -/
def oneAttachment (kind : String) (size : Int64) : ChatSend where
  text := "look"
  clientMsgId := "m1"
  attachments := some [⟨"u1", kind, "a.png", "image/png", size, 0, 0, ""⟩]

/-- The message as it is relayed. -/
def relayed (kind : String) (size : Int64) : Chat Int64 where
  id := "01J"
  sender := "p1"
  text := "look"
  ts := 1700000000000
  clientMsgId := "m1"
  senderName := "Alice"
  attachments := [⟨"u1", kind, "a.png", "image/png", size, 0, 0, ""⟩]

lemma relayed_image : smallRoom.broadcastChat "p1" (oneAttachment "image" 1000) "01J"
    1700000000000 = some (relayed "image" 1000) := by
  decide +kernel

lemma readable_image : ∀ a ∈ (oneAttachment "image" 1000).attachments.getD [], a.Readable := by
  intro a ha
  obtain rfl := List.mem_singleton.mp ha
  exact ⟨.inl rfl, ⟨1000, 0, by decide, by decide⟩, ⟨0, 0, by decide, by decide⟩,
    ⟨0, 0, by decide, by decide⟩⟩

theorem received_iff_image :
    Received (.chat (relayed "image" 1000)) ∧ Received (.ping "p1" "Alice") := by
  obtain ⟨hchat, hping⟩ := received_iff smallRoom "p1" (oneAttachment "image" 1000) "01J"
    1700000000000 relayed_image (e := .ping "p1" "Alice") (by simp)
  exact ⟨hchat.mpr ⟨⟨1700000000000, 0, by decide, by decide⟩, readable_image⟩, hping⟩

/-- An attachment of another kind, and one whose size no double holds: both are relayed, the
one is dropped by the clients, the other read with another size. -/
theorem not_received :
    smallRoom.broadcastChat "p1" (oneAttachment "video" 1000) "01J" 1700000000000 =
        some (relayed "video" 1000) ∧
      ¬ Received (.chat (relayed "video" 1000)) ∧
      smallRoom.broadcastChat "p1" (oneAttachment "file" 9007199254740993) "01J" 1700000000000 =
        some (relayed "file" 9007199254740993) ∧
      ¬ Received (.chat (relayed "file" 9007199254740993)) :=
  ⟨by decide +kernel, by decide +kernel, by decide +kernel, by decide +kernel⟩

end VoiceHub.Sfu.Wire
