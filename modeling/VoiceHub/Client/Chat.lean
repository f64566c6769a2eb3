import Mathlib
import VoiceHub.Lib.HashMap
import VoiceHub.Lib.Machine

/-!
The chat of a client: messages that are shown before the server has echoed them, the history in
IndexedDB, and sending again what was never echoed.

A message has its client's id until the echo replaces it by one with the server's. A copy from
before that may still be in the history, and merging by id brings it back.
-/

namespace VoiceHub.Client.Chat

open VoiceHub.Lib VoiceHub.Lib.Machine

structure Message where
  id : String
  text : String
  /-- in milliseconds, as are all times -/
  ts : ℕ
  clientMsgId : Option String
  pending : Bool
  senderClientId : Option String
  /-- by their upload ids -/
  attachments : List String
  uploadFailed : Bool
  deriving DecidableEq

/-- What is sent to the server. -/
structure Frame where
  text : String
  clientMsgId : String
  attachments : List String
  deriving DecidableEq

/-! ### The history -/

def CHAT_HISTORY_CAP : ℕ := 1000

def CHAT_TTL_MS : ℕ := 7 * 24 * 60 * 60 * 1000

/-- What is kept of a history: nothing that is too old, and the last messages. -/
def pruneChatHistory (now : ℕ) (messages : List Message) : List Message :=
  let kept := messages.filter fun m => now ≤ m.ts + CHAT_TTL_MS
  kept.drop (kept.length - CHAT_HISTORY_CAP)

/-- A reload never resurrects a failed send. -/
def stripTransient (m : Message) : Message := { m with uploadFailed := false }

/-! ### The list of a room -/

/-- The optimistic copy of a message. -/
def isPending (clientMsgId : String) (m : Message) : Bool :=
  m.clientMsgId = some clientMsgId ∧ m.pending

/-- `chatReceive`: in place of the optimistic copy, or at the end. -/
def receive (existing : List Message) (msg : Message) : List Message :=
  match msg.clientMsgId.bind fun c => existing.findIdx? (isPending c) with
  | some idx => existing.set idx msg
  | none => existing ++ [msg]

/-- The optimistic copy is changed, if it is there. -/
def patchPending (existing : List Message) (clientMsgId : String) (patch : Message → Message) :
    List Message :=
  match existing.findIdx? (isPending clientMsgId) with
  | some idx => existing.modify idx patch
  | none => existing

/-- History (older) goes first, live entries after, deduped by id. -/
def merge (loaded existing : List Message) : List Message :=
  loaded.filter (fun m => m.id ∉ existing.map Message.id) ++ existing

/-! ### Sending again -/

def RETRY_WINDOW_MS : ℕ := 5 * 60 * 1000

def TEMP_UPLOAD_PREFIX : String := "temp:"

def retryable (now : ℕ) (ourClientId : String) (m : Message) : Bool :=
  m.pending ∧ m.senderClientId = some ourClientId ∧ now ≤ m.ts + RETRY_WINDOW_MS ∧
    ¬ m.uploadFailed ∧ ¬ m.attachments.any fun a => TEMP_UPLOAD_PREFIX.toList.isPrefixOf a.toList

/-- Our own pending messages whose echo we never received. -/
def retryPendingChats (now : ℕ) (ourClientId : String) (msgs : List Message) : List Frame :=
  (msgs.filter (retryable now ourClientId)).filterMap fun m =>
    m.clientMsgId.map fun c => ⟨m.text, c, m.attachments⟩

/-! ### The store -/

/-- What has happened: the ids we made, all ids seen, the echoes by the ids of the client and of
the server, and the ids of the frames that were sent. -/
structure Past where
  born : List String
  used : List String
  echoes : List (String × String)
  sent : List String

/-- `loadChatRoom` on its way. -/
structure Load where
  room : String
  loaded : Option (List Message)

/-- The store, the records in IndexedDB with the writes to them, and the frames on their way. -/
structure World where
  roomSlug : String
  chatByRoom : HashMap String (List Message)
  records : String → List Message
  writes : List (String × List Message)
  loads : List Load
  /-- the debounced persist is due -/
  persistTimer : Bool
  frames : List Frame
  past : Past

namespace World

variable (w : World)

/-- `chatByRoom[room] ?? []` -/
def list (room : String) : List Message := (w.chatByRoom.lookup room).getD []

def setList (room : String) (msgs : List Message) : World :=
  { w with chatByRoom := AList.insert room msgs w.chatByRoom }

def patchPendingMessage (room clientMsgId : String) (patch : Message → Message) : World :=
  match w.chatByRoom.lookup room with
  | some existing => w.setList room (patchPending existing clientMsgId patch)
  | none => w

def putChatRecord (room : String) (msgs : List Message) : World :=
  { w with writes := w.writes ++ [(room, msgs)] }

/-- `persistChat`, which writes what is in the list by now. -/
def persistChat (now : ℕ) (room : String) : World :=
  match w.chatByRoom.lookup room with
  | some msgs => w.putChatRecord room ((pruneChatHistory now msgs).map stripTransient)
  | none => w

def sendFrames (frames : List Frame) : World :=
  { w with
    frames := w.frames ++ frames
    past := { w.past with sent := w.past.sent ++ frames.map Frame.clientMsgId } }

def see (ids : List String) : World :=
  { w with past := { w.past with used := ids ++ w.past.used } }

/-- Message `msg` comes from the server. -/
def handleChatReceive (msg : Message) : World :=
  { w.setList w.roomSlug (receive (w.list w.roomSlug) msg) with
    persistTimer := true
    past := { w.past with
      echoes := (msg.clientMsgId.toList.map fun c => (c, msg.id)) ++ w.past.echoes } }.see
    (msg.id :: msg.clientMsgId.toList)

end World

inductive Op
  | switchRoom (room : String)
  /-- a new message is shown and kept; without attachments it is sent at once -/
  | send (room clientMsgId text : String) (senderClientId : Option String)
    (attachments : List String) (now : ℕ)
  | uploadProgress (room clientMsgId : String)
  | uploadFailed (room clientMsgId : String) (now : ℕ)
  /-- the attachments have their ids, and the message is sent -/
  | uploaded (room clientMsgId text : String) (attachments : List String) (now : ℕ)
  /-- the server echoes frame `i` of those on their way -/
  | echo (i : ℕ) (id : String) (ts : ℕ) (senderClientId : Option String)
  /-- a message of somebody else -/
  | receive (id text : String) (ts : ℕ) (clientMsgId senderClientId : Option String)
    (attachments : List String)
  /-- the timer of `schedulePersist` goes off -/
  | persist (now : ℕ)
  /-- a write reaches the database -/
  | commit (i : ℕ)
  | loadChatRoom (room : String)
  /-- `loadChatHistory` has read the record -/
  | read (i : ℕ) (now : ℕ)
  | merge (i : ℕ)
  | retryPendingChats (now : ℕ) (ourClientId : String)

namespace World

def step (w : World) : Op → Option World
  | .switchRoom room => some { w with roomSlug := room }
  | .send room clientMsgId text senderClientId attachments now =>
    let msg : Message :=
      ⟨clientMsgId, text, now, some clientMsgId, true, senderClientId, attachments, false⟩
    let w := { w with past := { w.past with born := clientMsgId :: w.past.born } }
    let w := ((w.see [clientMsgId]).setList room (w.list room ++ [msg])).persistChat now room
    some (if attachments = [] then w.sendFrames [⟨text, clientMsgId, []⟩] else w)
  | .uploadProgress room clientMsgId =>
    some (w.patchPendingMessage room clientMsgId fun m => { m with uploadFailed := false })
  | .uploadFailed room clientMsgId now =>
    let w := w.patchPendingMessage room clientMsgId fun m => { m with uploadFailed := true }
    some (w.persistChat now room)
  | .uploaded room clientMsgId text attachments now =>
    let w := w.patchPendingMessage room clientMsgId fun m =>
      { m with attachments, uploadFailed := false }
    some ((w.sendFrames [⟨text, clientMsgId, attachments⟩]).persistChat now room)
  | .echo i id ts senderClientId =>
    match w.frames[i]? with
    | none => none
    | some f =>
      some ({ w with frames := w.frames.eraseIdx i }.handleChatReceive
        ⟨id, f.text, ts, some f.clientMsgId, false, senderClientId, f.attachments, false⟩)
  | .receive id text ts clientMsgId senderClientId attachments =>
    let w := { w with past := { w.past with sent := w.past.sent ++ clientMsgId.toList } }
    some (w.handleChatReceive
      ⟨id, text, ts, clientMsgId, false, senderClientId, attachments, false⟩)
  | .persist now =>
    if w.persistTimer then some ({ w with persistTimer := false }.persistChat now w.roomSlug)
    else none
  | .commit i =>
    match w.writes[i]? with
    | none => none
    | some (room, msgs) =>
      some { w with
        records := Function.update w.records room msgs
        writes := w.writes.eraseIdx i }
  | .loadChatRoom room => some { w with loads := w.loads ++ [⟨room, none⟩] }
  | .read i now =>
    match w.loads[i]? with
    | some ⟨room, none⟩ =>
      let kept := pruneChatHistory now (w.records room)
      let w' := { w with loads := w.loads.set i ⟨room, some kept⟩ }
      some (if kept.length < (w.records room).length then w'.putChatRecord room kept else w')
    | _ => none
  | .merge i =>
    match w.loads[i]? with
    | some ⟨room, some loaded⟩ =>
      some ({ w with loads := w.loads.eraseIdx i }.setList room (Chat.merge loaded (w.list room)))
    | _ => none
  | .retryPendingChats now ourClientId =>
    some (w.sendFrames (Chat.retryPendingChats now ourClientId (w.list w.roomSlug)))

end World

/-! ### Lists of messages -/

/-- What is true of every list of messages, wherever it is kept. -/
structure Tidy (p : Past) (msgs : List Message) : Prop where
  nodup : (msgs.map Message.id).Nodup
  used : ∀ m ∈ msgs, m.id ∈ p.used
  pending : ∀ m ∈ msgs, m.pending = true → m.clientMsgId = some m.id ∧ m.id ∈ p.born
  echoed : ∀ m ∈ msgs, m.pending = false → ∀ c ∈ m.clientMsgId, (c, m.id) ∈ p.echoes

/-- No message of these is pending whose echo has been received. -/
def Unechoed (p : Past) (msgs : List Message) : Prop :=
  ∀ m ∈ msgs, m.pending = true → ∀ id, (m.id, id) ∉ p.echoes

/-- What has happened is not undone. -/
structure Past.Grows (p p' : Past) : Prop where
  born : p.born ⊆ p'.born
  used : p.used ⊆ p'.used
  echoes : p.echoes ⊆ p'.echoes

section Lists

variable {p p' : Past} {msgs loaded existing : List Message} {msg : Message} {now : ℕ}
  {f : Message → Message} {c : String}

lemma tidy_nil (p : Past) : Tidy p [] := ⟨List.nodup_nil, by simp, by simp, by simp⟩

lemma Tidy.grow (h : Tidy p msgs) (hg : p.Grows p') : Tidy p' msgs where
  nodup := h.nodup
  used m hm := hg.used (h.used m hm)
  pending m hm hp := ⟨(h.pending m hm hp).1, hg.born (h.pending m hm hp).2⟩
  echoed m hm hp c hc := hg.echoes (h.echoed m hm hp c hc)

lemma Tidy.sublist (h : Tidy p msgs) (hs : existing.Sublist msgs) : Tidy p existing where
  nodup := h.nodup.sublist (hs.map _)
  used m hm := h.used m (hs.subset hm)
  pending m hm := h.pending m (hs.subset hm)
  echoed m hm := h.echoed m (hs.subset hm)

lemma prune_sublist (now : ℕ) (msgs : List Message) : (pruneChatHistory now msgs).Sublist msgs :=
  (List.drop_sublist _ _).trans List.filter_sublist

/-- What a change of the other fields leaves. -/
def face (m : Message) : String × Option String × Bool := (m.id, m.clientMsgId, m.pending)

lemma exists_of_face {msgs' : List Message} (hface : msgs'.map face = msgs.map face) {m : Message}
    (hm : m ∈ msgs') : ∃ m' ∈ msgs, m'.id = m.id ∧ m'.clientMsgId = m.clientMsgId ∧
      m'.pending = m.pending := by
  obtain ⟨m', hm', heq⟩ := List.mem_map.mp (hface ▸ List.mem_map_of_mem hm)
  simp only [face, Prod.mk.injEq] at heq
  exact ⟨m', hm', heq⟩

lemma map_id_of_face {msgs' : List Message} (hface : msgs'.map face = msgs.map face) :
    msgs'.map Message.id = msgs.map Message.id := by
  have hid : Message.id = Prod.fst ∘ face := rfl
  rw [hid, ← List.map_map, hface, List.map_map]

lemma Tidy.of_face (h : Tidy p msgs) {msgs' : List Message}
    (hface : msgs'.map face = msgs.map face) : Tidy p msgs' where
  nodup := by
    rw [map_id_of_face hface]
    exact h.nodup
  used m hm := by
    obtain ⟨m', hm', hid, -, -⟩ := exists_of_face hface hm
    rw [← hid]
    exact h.used m' hm'
  pending m hm hp := by
    obtain ⟨m', hm', hid, hc, hpend⟩ := exists_of_face hface hm
    rw [← hid, ← hc]
    exact h.pending m' hm' (hpend.trans hp)
  echoed m hm hp c hc := by
    obtain ⟨m', hm', hid, hc', hpend⟩ := exists_of_face hface hm
    rw [← hid]
    exact h.echoed m' hm' (hpend.trans hp) c (hc' ▸ hc)

lemma Unechoed.of_face (h : Unechoed p msgs) {msgs' : List Message}
    (hface : msgs'.map face = msgs.map face) : Unechoed p msgs' := by
  intro m hm hp
  obtain ⟨m', hm', hid, -, hpend⟩ := exists_of_face hface hm
  rw [← hid]
  exact h m' hm' (hpend.trans hp)

lemma face_strip (msgs : List Message) : (msgs.map stripTransient).map face = msgs.map face := by
  rw [List.map_map]
  rfl

lemma face_patch (hf : ∀ m, face (f m) = face m) (msgs : List Message) (c : String) :
    (patchPending msgs c f).map face = msgs.map face := by
  unfold patchPending
  split
  · next idx _ =>
    refine List.ext_getElem? fun k => ?_
    rw [List.getElem?_map, List.getElem?_map, List.getElem?_modify,
      Option.map_eq_map, Option.map_map]
    refine congrArg (Option.map · msgs[k]?) (funext fun m => ?_)
    rw [Function.comp_apply]
    split
    · exact hf m
    · rfl
  · rfl

lemma Tidy.snoc (h : Tidy p msgs) (hmsg : Tidy p [msg]) (hfresh : msg.id ∉ msgs.map Message.id) :
    Tidy p (msgs ++ [msg]) where
  nodup := by
    rw [List.map_append, List.nodup_append]
    refine ⟨h.nodup, hmsg.nodup, fun a ha b hb hab => hfresh ?_⟩
    rwa [← List.mem_singleton.mp hb, ← hab]
  used m hm := (List.mem_append.mp hm).elim (h.used m) (hmsg.used m)
  pending m hm := (List.mem_append.mp hm).elim (h.pending m) (hmsg.pending m)
  echoed m hm := (List.mem_append.mp hm).elim (h.echoed m) (hmsg.echoed m)

lemma Tidy.set (h : Tidy p msgs) (hmsg : Tidy p [msg]) (hfresh : msg.id ∉ msgs.map Message.id)
    (i : ℕ) : Tidy p (msgs.set i msg) where
  nodup := by
    rw [List.map_set]
    exact h.nodup.set hfresh
  used m hm := (List.mem_or_eq_of_mem_set hm).elim (h.used m) fun he =>
    hmsg.used m (List.mem_singleton.mpr he)
  pending m hm := (List.mem_or_eq_of_mem_set hm).elim (h.pending m) fun he =>
    hmsg.pending m (List.mem_singleton.mpr he)
  echoed m hm := (List.mem_or_eq_of_mem_set hm).elim (h.echoed m) fun he =>
    hmsg.echoed m (List.mem_singleton.mpr he)

lemma Tidy.receive (h : Tidy p msgs) (hmsg : Tidy p [msg])
    (hfresh : msg.id ∉ msgs.map Message.id) : Tidy p (receive msgs msg) := by
  unfold Chat.receive
  split
  · exact h.set hmsg hfresh _
  · exact h.snoc hmsg hfresh

lemma Tidy.merge (hl : Tidy p loaded) (he : Tidy p existing) : Tidy p (merge loaded existing) where
  nodup := by
    unfold Chat.merge
    rw [List.map_append, List.nodup_append]
    refine ⟨(hl.sublist List.filter_sublist).nodup, he.nodup, fun a ha b hb hab => ?_⟩
    obtain ⟨m, hm, rfl⟩ := List.mem_map.mp ha
    exact of_decide_eq_true (List.mem_filter.mp hm).2 (hab ▸ hb)
  used m hm := (List.mem_append.mp hm).elim
    (fun hm => hl.used m (List.mem_filter.mp hm).1) (he.used m)
  pending m hm := (List.mem_append.mp hm).elim
    (fun hm => hl.pending m (List.mem_filter.mp hm).1) (he.pending m)
  echoed m hm := (List.mem_append.mp hm).elim
    (fun hm => hl.echoed m (List.mem_filter.mp hm).1) (he.echoed m)

lemma mem_of_mem_receive (hp : msg.pending = false) {m : Message} (hm : m ∈ receive msgs msg)
    (hpend : m.pending = true) : m ∈ msgs := by
  have hne : m ≠ msg := by
    rintro rfl
    rw [hp] at hpend
    cases hpend
  unfold Chat.receive at hm
  split at hm
  · exact (List.mem_or_eq_of_mem_set hm).resolve_right hne
  · exact (List.mem_append.mp hm).resolve_right fun h => hne (List.mem_singleton.mp h)

lemma Tidy.index_eq (h : Tidy p msgs) {i j : ℕ} {m m' : Message} (hi : msgs[i]? = some m)
    (hj : msgs[j]? = some m') (hid : m.id = m'.id) : i = j := by
  have hi' : (msgs.map Message.id)[i]? = some m.id := by rw [List.getElem?_map, hi, Option.map_some]
  have hj' : (msgs.map Message.id)[j]? = some m.id := by
    rw [List.getElem?_map, hj, Option.map_some, hid]
  have hlt : i < (msgs.map Message.id).length := (List.getElem?_eq_some_iff.mp hi').1
  exact (List.getElem?_inj hlt h.nodup).mp (hi'.trans hj'.symm)

/-- The echo takes the place of the only pending copy. -/
lemma receive_unpending (h : Tidy p msgs) (hc : msg.clientMsgId = some c)
    (hp : msg.pending = false) {m : Message} (hm : m ∈ receive msgs msg)
    (hpend : m.pending = true) : m.id ≠ c := by
  intro hid
  have hmem := mem_of_mem_receive hp hm hpend
  have hcopy : isPending c m = true := by
    rw [isPending, (h.pending m hmem hpend).1, hid]
    simp [hpend]
  unfold Chat.receive at hm
  rw [hc, Option.bind_some] at hm
  split at hm
  · -- the echo replaces the pending copy
    next idx hidx =>
    obtain ⟨hlt, hfound, -⟩ := List.findIdx?_eq_some_iff_getElem.mp hidx
    rw [isPending, decide_eq_true_eq] at hfound
    have hfoundId : msgs[idx].id = c := by
      have := (h.pending _ (List.getElem_mem hlt) hfound.2).1
      exact Option.some.inj (this.symm.trans hfound.1)
    obtain ⟨k, hk⟩ := List.mem_iff_getElem?.mp hm
    rw [List.getElem?_set] at hk
    split_ifs at hk with hik
    · rw [← Option.some.inj hk, hp] at hpend
      cases hpend
    · exact hik (h.index_eq (List.getElem?_eq_getElem hlt) hk (hfoundId.trans hid.symm))
  · -- there is no pending copy
    next hnone =>
    rw [List.findIdx?_eq_none_iff.mp hnone m hmem] at hcopy
    cases hcopy

end Lists

/-! ### The whole store -/

/-- New ids are new. -/
def Fresh (w : World) : Op → Prop
  | .send _ clientMsgId .. => clientMsgId ∉ w.past.used
  | .echo _ id .. => id ∉ w.past.used
  | .receive id _ _ clientMsgId .. =>
    id ∉ w.past.used ∧ ∀ c ∈ clientMsgId, c ∉ w.past.born
  | _ => True

/-- An echo finds the list of its message selected, and a merge brings back no pending message
whose echo has been received. -/
def Reconciled (w : World) : Op → Prop
  | .echo i .. => ∀ f ∈ w.frames[i]?, ∀ room ∈ w.chatByRoom.keys, room ≠ w.roomSlug →
    ∀ m ∈ w.list room, ¬ isPending f.clientMsgId m
  | .merge i => ∀ l ∈ w.loads[i]?, ∀ loaded ∈ l.loaded, ∀ m ∈ loaded, m.pending = true →
    m.id ∉ (w.list l.room).map Message.id → m.id ∉ w.past.echoes.map Prod.fst
  | _ => True

/-- A page that has just been loaded, with some history. -/
structure Clean (w : World) : Prop where
  chatByRoom : w.chatByRoom = ∅
  writes : w.writes = []
  loads : w.loads = []
  frames : w.frames = []
  records : ∀ room, Tidy w.past (w.records room)
  used : ∀ e ∈ w.past.echoes, e.1 ∈ w.past.used
  counts : ∀ c, (w.past.echoes.map Prod.fst).count c ≤ w.past.sent.count c

/-- All lists are tidy, none that is shown has a pending message whose echo has been received, and
no frame is echoed twice. -/
structure Sound (w : World) : Prop where
  list : ∀ room, Tidy w.past (w.list room)
  unechoed : ∀ room, Unechoed w.past (w.list room)
  records : ∀ room, Tidy w.past (w.records room)
  writes : ∀ x ∈ w.writes, Tidy w.past x.2
  loads : ∀ l ∈ w.loads, ∀ msgs ∈ l.loaded, Tidy w.past msgs
  used : ∀ e ∈ w.past.echoes, e.1 ∈ w.past.used
  counts : ∀ c, (w.past.echoes.map Prod.fst).count c +
    (w.frames.map Frame.clientMsgId).count c ≤ w.past.sent.count c

section Sound

variable {w w' : World} {room : String} {msgs : List Message} {now : ℕ}

lemma list_setList (room : String) (msgs : List Message) (r : String) :
    (w.setList room msgs).list r = if r = room then msgs else w.list r := by
  rw [World.list, World.setList, HashMap.lookup_insert]
  split_ifs <;> rfl

lemma mem_keys_of_mem_list {m : Message} (hm : m ∈ w.list room) : room ∈ w.chatByRoom.keys := by
  by_contra hkey
  rw [World.list, AList.lookup_eq_none.mpr hkey] at hm
  cases hm

lemma Clean.sound (h : Clean w) : Sound w where
  list room := by
    rw [World.list, h.chatByRoom]
    exact tidy_nil _
  unechoed room := by
    rw [World.list, h.chatByRoom]
    intro m hm
    cases hm
  records := h.records
  writes := by simp [h.writes]
  loads := by simp [h.loads]
  used := h.used
  counts c := by
    rw [h.frames, List.map_nil, List.count_nil, Nat.add_zero]
    exact h.counts c

lemma Sound.setList (h : Sound w) (ht : Tidy w.past msgs) (hu : Unechoed w.past msgs)
    (room : String) : Sound (w.setList room msgs) where
  list r := by
    rw [list_setList]
    split_ifs
    · exact ht
    · exact h.list r
  unechoed r := by
    rw [list_setList]
    split_ifs
    · exact hu
    · exact h.unechoed r
  records := h.records
  writes := h.writes
  loads := h.loads
  used := h.used
  counts := h.counts

lemma Sound.patch (h : Sound w) {f : Message → Message} (hf : ∀ m, face (f m) = face m)
    (room c : String) : Sound (w.patchPendingMessage room c f) := by
  unfold World.patchPendingMessage
  split
  · next existing hlookup =>
    have hlist : w.list room = existing := by rw [World.list, hlookup, Option.getD_some]
    have hface := face_patch hf existing c
    rw [← hlist] at hface ⊢
    exact h.setList ((h.list room).of_face hface) ((h.unechoed room).of_face hface) room
  · exact h

lemma Sound.putChatRecord (h : Sound w) (ht : Tidy w.past msgs) (room : String) :
    Sound (w.putChatRecord room msgs) where
  list := h.list
  unechoed := h.unechoed
  records := h.records
  writes x hx := by
    rcases List.mem_append.mp hx with hx | hx
    · exact h.writes x hx
    · rw [List.mem_singleton.mp hx]
      exact ht
  loads := h.loads
  used := h.used
  counts := h.counts

lemma Sound.persistChat (h : Sound w) (now : ℕ) (room : String) :
    Sound (w.persistChat now room) := by
  unfold World.persistChat
  split
  · next existing hlookup =>
    have hlist : w.list room = existing := by rw [World.list, hlookup, Option.getD_some]
    have ht := h.list room
    rw [hlist] at ht
    exact h.putChatRecord ((ht.sublist (prune_sublist now _)).of_face (face_strip _)) room
  · exact h

lemma Sound.know (h : Sound w) {p : Past} (hg : w.past.Grows p) (hechoes : p.echoes = w.past.echoes)
    (hcounts : ∀ c, w.past.sent.count c ≤ p.sent.count c) : Sound { w with past := p } where
  list room := (h.list room).grow hg
  unechoed room m hm hp id := by
    rw [hechoes]
    exact h.unechoed room m hm hp id
  records room := (h.records room).grow hg
  writes x hx := (h.writes x hx).grow hg
  loads l hl msgs hmsgs := (h.loads l hl msgs hmsgs).grow hg
  used e he := hg.used (h.used e (hechoes ▸ he))
  counts c := by
    rw [hechoes]
    exact (h.counts c).trans (hcounts c)

lemma Sound.sendFrames (h : Sound w) (frames : List Frame) : Sound (w.sendFrames frames) := by
  have hg : w.past.Grows (w.sendFrames frames).past :=
    ⟨List.Subset.refl _, List.Subset.refl _, List.Subset.refl _⟩
  refine ⟨fun r => (h.list r).grow hg, h.unechoed, fun r => (h.records r).grow hg,
    fun x hx => (h.writes x hx).grow hg, fun l hl msgs hmsgs => (h.loads l hl msgs hmsgs).grow hg,
    h.used, fun c => ?_⟩
  have hc := h.counts c
  simp only [World.sendFrames, List.map_append, List.count_append]
  omega

lemma Sound.send (h : Sound w) {c text : String} {sender : Option String}
    {attachments : List String} (hfresh : c ∉ w.past.used)
    (hs : w.step (.send room c text sender attachments now) = some w') : Sound w' := by
  have hg : w.past.Grows { w.past with born := c :: w.past.born, used := c :: w.past.used } :=
    ⟨List.subset_cons_self _ _, List.subset_cons_self _ _, List.Subset.refl _⟩
  have hknow := h.know hg rfl fun _ => le_rfl
  have hnew : c ∉ (w.list room).map Message.id := by
    intro hmem
    obtain ⟨m, hm, rfl⟩ := List.mem_map.mp hmem
    exact hfresh ((h.list room).used m hm)
  obtain ⟨msg, hmsg⟩ : ∃ msg : Message,
      msg = ⟨c, text, now, some c, true, sender, attachments, false⟩ := ⟨_, rfl⟩
  have htidy : Tidy { w.past with born := c :: w.past.born, used := c :: w.past.used } [msg] := by
    subst hmsg
    exact ⟨List.nodup_singleton _, by simp, by simp, by simp⟩
  have hshown := (hknow.setList ((hknow.list room).snoc htidy (by rw [hmsg]; exact hnew))
    (fun m hm hp id he => ?_) room).persistChat now room
  · rw [World.step] at hs
    subst hmsg
    dsimp only at hs
    split_ifs at hs
    · obtain rfl := Option.some.inj hs
      exact hshown.sendFrames _
    · obtain rfl := Option.some.inj hs
      exact hshown
  · rcases List.mem_append.mp hm with hm | hm
    · exact hknow.unechoed room m hm hp id he
    · -- what is new has no echo yet
      rw [List.mem_singleton.mp hm, hmsg] at he
      exact hfresh (h.used _ he)

lemma Sound.handleChatReceive (h : Sound w) {msg : Message} (hp : msg.pending = false)
    (hfresh : msg.id ∉ w.past.used)
    (hpending : ∀ c ∈ msg.clientMsgId, ∀ r ≠ w.roomSlug, ∀ m ∈ w.list r, m.pending = true →
      m.id ≠ c)
    (hcounts : ∀ c, (w.past.echoes.map Prod.fst).count c + msg.clientMsgId.toList.count c +
      (w.frames.map Frame.clientMsgId).count c ≤ w.past.sent.count c) :
    Sound (w.handleChatReceive msg) := by
  have hg : w.past.Grows (w.handleChatReceive msg).past :=
    ⟨List.Subset.refl _, List.subset_append_right _ _, List.subset_append_right _ _⟩
  have hnew (r) : msg.id ∉ (w.list r).map Message.id := by
    intro hmem
    obtain ⟨m, hm, hid⟩ := List.mem_map.mp hmem
    exact hfresh (hid ▸ (h.list r).used m hm)
  have hechoes : (w.handleChatReceive msg).past.echoes =
      (msg.clientMsgId.toList.map fun c => (c, msg.id)) ++ w.past.echoes := rfl
  have hused : (w.handleChatReceive msg).past.used =
      msg.id :: msg.clientMsgId.toList ++ w.past.used := rfl
  have hmsg : Tidy (w.handleChatReceive msg).past [msg] := by
    refine ⟨List.nodup_singleton _, ?_, ?_, ?_⟩
    · intro m hm
      rw [List.mem_singleton.mp hm]
      exact List.mem_append_left _ List.mem_cons_self
    · intro m hm hpend
      rw [List.mem_singleton.mp hm, hp] at hpend
      cases hpend
    · intro m hm _ c hc
      rw [List.mem_singleton.mp hm] at hc ⊢
      exact List.mem_append_left _ (List.mem_map.mpr ⟨c, Option.mem_toList.mpr hc, rfl⟩)
  have hlist (r) : (w.handleChatReceive msg).list r =
      if r = w.roomSlug then receive (w.list w.roomSlug) msg else w.list r :=
    list_setList _ _ r
  refine ⟨fun r => ?_, fun r m hm hpend id he => ?_, fun r => (h.records r).grow hg,
    fun x hx => (h.writes x hx).grow hg, fun l hl msgs hmsgs => (h.loads l hl msgs hmsgs).grow hg,
    fun e he => ?_, fun c => ?_⟩
  · rw [hlist]
    split_ifs
    · -- the room on display
      exact ((h.list _).grow hg).receive hmsg (hnew _)
    · exact (h.list r).grow hg
  · rw [hlist] at hm
    rw [hechoes] at he
    rcases List.mem_append.mp he with he | he
    · -- the echo itself: no pending copy is left
      obtain ⟨c, hc, heq⟩ := List.mem_map.mp he
      have hid : c = m.id := (Prod.mk.inj heq).1
      have hc := Option.mem_toList.mp hc
      split_ifs at hm with hr
      · exact receive_unpending (h.list _) hc hp hm hpend hid.symm
      · exact hpending c hc r hr m hm hpend hid.symm
    · split_ifs at hm with hr
      · exact h.unechoed _ m (mem_of_mem_receive hp hm hpend) hpend id he
      · exact h.unechoed r m hm hpend id he
  · rw [hused]
    rw [hechoes] at he
    rcases List.mem_append.mp he with he | he
    · obtain ⟨c, hc, rfl⟩ := List.mem_map.mp he
      exact List.mem_append_left _ (List.mem_cons_of_mem _ hc)
    · exact List.mem_append_right _ (h.used e he)
  · have hfst : ((w.handleChatReceive msg).past.echoes.map Prod.fst).count c =
        msg.clientMsgId.toList.count c + (w.past.echoes.map Prod.fst).count c := by
      rw [hechoes, List.map_append, List.count_append, List.map_map]
      exact congrArg (· + _) (congrArg (List.count c) (List.map_id _))
    have hc := hcounts c
    rw [hfst]
    change _ + _ + (w.frames.map Frame.clientMsgId).count c ≤ w.past.sent.count c
    omega

lemma Sound.echo (h : Sound w) {i : ℕ} {id : String} {ts : ℕ} {sender : Option String}
    (hfresh : id ∉ w.past.used) (hr : Reconciled w (.echo i id ts sender))
    (hs : w.step (.echo i id ts sender) = some w') : Sound w' := by
  rw [World.step] at hs
  cases hi : w.frames[i]? with
  | none =>
    rw [hi] at hs
    cases hs
  | some f =>
    rw [hi] at hs
    obtain rfl := Option.some.inj hs
    have hperm : (f :: w.frames.eraseIdx i).Perm w.frames := by
      obtain ⟨hlt, rfl⟩ := List.getElem?_eq_some_iff.mp hi
      exact List.getElem_cons_eraseIdx_perm hlt
    have hcount (c : String) : (w.frames.map Frame.clientMsgId).count c =
        [f.clientMsgId].count c + ((w.frames.eraseIdx i).map Frame.clientMsgId).count c := by
      rw [← (hperm.map Frame.clientMsgId).count_eq c, List.map_cons, ← List.count_append]
      rfl
    have herase : Sound { w with frames := w.frames.eraseIdx i } :=
      ⟨h.list, h.unechoed, h.records, h.writes, h.loads, h.used, fun c => by
        have hsent := h.counts c
        have hframe := hcount c
        change (w.past.echoes.map Prod.fst).count c +
          ((w.frames.eraseIdx i).map Frame.clientMsgId).count c ≤ w.past.sent.count c
        omega⟩
    refine herase.handleChatReceive rfl hfresh ?_ fun c => ?_
    · intro c hc r hne m hm hpend hid
      obtain rfl : f.clientMsgId = c := Option.some.inj hc
      refine hr f hi r (mem_keys_of_mem_list hm) hne m hm ?_
      rw [isPending, ((h.list r).pending m hm hpend).1, hid]
      simp [hpend]
    · have hsent := h.counts c
      have hframe := hcount c
      change (w.past.echoes.map Prod.fst).count c + [f.clientMsgId].count c +
        ((w.frames.eraseIdx i).map Frame.clientMsgId).count c ≤ w.past.sent.count c
      omega

lemma Sound.receive (h : Sound w) {id text : String} {ts : ℕ} {c sender : Option String}
    {attachments : List String} (hf : Fresh w (.receive id text ts c sender attachments))
    (hs : w.step (.receive id text ts c sender attachments) = some w') : Sound w' := by
  rw [World.step] at hs
  obtain rfl := Option.some.inj hs
  have hsent := h.know (p := { w.past with sent := w.past.sent ++ c.toList })
    ⟨List.Subset.refl _, List.Subset.refl _, List.Subset.refl _⟩ rfl fun a => by
      rw [List.count_append]
      exact Nat.le_add_right _ _
  refine hsent.handleChatReceive rfl hf.1 ?_ fun a => ?_
  · intro a ha r _ m hm hpend hid
    exact hf.2 a ha (hid ▸ ((h.list r).pending m hm hpend).2)
  · have := h.counts a
    change _ + c.toList.count a + _ ≤ (w.past.sent ++ c.toList).count a
    rw [List.count_append]
    change _ ≤ w.past.sent.count a at this
    dsimp only
    omega

lemma Sound.commit (h : Sound w) {i : ℕ} (hs : w.step (.commit i) = some w') : Sound w' := by
  rw [World.step] at hs
  cases hi : w.writes[i]? with
  | none =>
    rw [hi] at hs
    cases hs
  | some x =>
    rw [hi] at hs
    obtain rfl := Option.some.inj hs
    refine ⟨h.list, h.unechoed, fun r => ?_, fun y hy => ?_, h.loads, h.used, h.counts⟩
    · by_cases hr : r = x.1
      · subst hr
        change Tidy _ (Function.update w.records x.1 x.2 x.1)
        rw [Function.update_self]
        exact h.writes x (List.mem_of_getElem? hi)
      · change Tidy _ (Function.update w.records x.1 x.2 r)
        rw [Function.update_of_ne hr]
        exact h.records r
    · exact h.writes y (List.eraseIdx_subset hy)

lemma Sound.read (h : Sound w) {i : ℕ} (hs : w.step (.read i now) = some w') : Sound w' := by
  rw [World.step] at hs
  split at hs
  · next room hi =>
    have hkept : Tidy w.past (pruneChatHistory now (w.records room)) :=
      (h.records room).sublist (prune_sublist now _)
    have hread : Sound { w with
        loads := w.loads.set i ⟨room, some (pruneChatHistory now (w.records room))⟩ } := by
      refine ⟨h.list, h.unechoed, h.records, h.writes, fun l hl msgs hmsgs => ?_, h.used, h.counts⟩
      rcases List.mem_or_eq_of_mem_set hl with hl | rfl
      · exact h.loads l hl msgs hmsgs
      · obtain rfl := Option.some.inj hmsgs
        exact hkept
    dsimp only at hs
    split_ifs at hs
    · obtain rfl := Option.some.inj hs
      exact hread.putChatRecord hkept room
    · obtain rfl := Option.some.inj hs
      exact hread
  · cases hs

lemma Sound.merge (h : Sound w) {i : ℕ} (hr : Reconciled w (.merge i))
    (hs : w.step (.merge i) = some w') : Sound w' := by
  rw [World.step] at hs
  split at hs
  · next room loaded hi =>
    obtain rfl := Option.some.inj hs
    have hloaded : Tidy w.past loaded := h.loads _ (List.mem_of_getElem? hi) loaded rfl
    have herase : Sound { w with loads := w.loads.eraseIdx i } :=
      ⟨h.list, h.unechoed, h.records, h.writes,
        fun l hl => h.loads l (List.eraseIdx_subset hl), h.used, h.counts⟩
    refine herase.setList (hloaded.merge (h.list room)) (fun m hm hp id he => ?_) room
    rcases List.mem_append.mp hm with hm | hm
    · obtain ⟨hm, hseen⟩ := List.mem_filter.mp hm
      exact hr _ hi loaded rfl m hm hp (of_decide_eq_true hseen)
        (List.mem_map.mpr ⟨_, he, rfl⟩)
    · exact h.unechoed room m hm hp id he
  · cases hs

lemma Sound.step (h : Sound w) {op : Op} (hf : Fresh w op) (hr : Reconciled w op)
    (hs : w.step op = some w') : Sound w' := by
  cases op with
  | send room c text sender attachments now => exact h.send hf hs
  | echo i id ts sender => exact h.echo hf hr hs
  | receive id text ts c sender attachments => exact h.receive hf hs
  | commit i => exact h.commit hs
  | read i now => exact h.read hs
  | merge i => exact h.merge hr hs
  | switchRoom room =>
    obtain rfl := Option.some.inj hs
    exact ⟨h.list, h.unechoed, h.records, h.writes, h.loads, h.used, h.counts⟩
  | uploadProgress room c =>
    obtain rfl := Option.some.inj hs
    exact h.patch (f := fun m => { m with uploadFailed := false }) (fun _ => rfl) room c
  | uploadFailed room c now =>
    obtain rfl := Option.some.inj hs
    exact (h.patch (f := fun m => { m with uploadFailed := true }) (fun _ => rfl) room
      c).persistChat now room
  | uploaded room c text attachments now =>
    obtain rfl := Option.some.inj hs
    have hpatch := h.patch (f := fun m => { m with attachments, uploadFailed := false })
      (fun _ => rfl) room c
    exact (hpatch.sendFrames _).persistChat now room
  | persist now =>
    rw [World.step] at hs
    split_ifs at hs
    obtain rfl := Option.some.inj hs
    have hdone : Sound { w with persistTimer := false } :=
      ⟨h.list, h.unechoed, h.records, h.writes, h.loads, h.used, h.counts⟩
    exact hdone.persistChat now w.roomSlug
  | loadChatRoom room =>
    obtain rfl := Option.some.inj hs
    refine ⟨h.list, h.unechoed, h.records, h.writes, fun l hl msgs hmsgs => ?_, h.used, h.counts⟩
    rcases List.mem_append.mp hl with hl | hl
    · exact h.loads l hl msgs hmsgs
    · rw [List.mem_singleton.mp hl] at hmsgs
      cases hmsgs
  | retryPendingChats now ourClientId =>
    obtain rfl := Option.some.inj hs
    exact h.sendFrames _

lemma echo_unique {echoes : List (String × String)} {c id id' : String}
    (hone : (echoes.map Prod.fst).count c ≤ 1) (h : (c, id) ∈ echoes) (h' : (c, id') ∈ echoes) :
    id = id' := by
  by_contra hne
  have hnodup : [(c, id), (c, id')].Nodup := by simp [hne]
  have hsub : [(c, id), (c, id')] ⊆ echoes := by simp [h, h']
  obtain ⟨both, hperm, hboth⟩ := List.subperm_of_subset hnodup hsub
  have htwo : (both.map Prod.fst).count c = 2 := by
    rw [(hperm.map Prod.fst).count_eq c]
    simp
  have hle := (hboth.map Prod.fst).count_le c
  omega

lemma Tidy.id_eq {p : Past} (h : Tidy p msgs) (hu : Unechoed p msgs) {c : String}
    (hone : (p.echoes.map Prod.fst).count c ≤ 1) {m m' : Message} (hm : m ∈ msgs) (hm' : m' ∈ msgs)
    (hc : m.clientMsgId = some c) (hc' : m'.clientMsgId = some c) : m.id = m'.id := by
  have hpending {m : Message} (hm : m ∈ msgs) (hc : m.clientMsgId = some c)
      (hp : m.pending = true) : m.id = c :=
    Option.some.inj ((h.pending m hm hp).1.symm.trans hc)
  cases hp : m.pending <;> cases hp' : m'.pending
  · exact echo_unique hone (h.echoed m hm hp c hc) (h.echoed m' hm' hp' c hc')
  · have hecho := h.echoed m hm hp c hc
    rw [← hpending hm' hc' hp'] at hecho
    exact absurd hecho (hu m' hm' hp' m.id)
  · have hecho := h.echoed m' hm' hp' c hc'
    rw [← hpending hm hc hp] at hecho
    exact absurd hecho (hu m hm hp m'.id)
  · rw [hpending hm hc hp, hpending hm' hc' hp']

lemma Tidy.length_le_one {p : Past} (h : Tidy p msgs) (hu : Unechoed p msgs) {c : String}
    (hone : (p.echoes.map Prod.fst).count c ≤ 1) :
    (msgs.filter fun m => m.clientMsgId = some c).length ≤ 1 := by
  have hids := (h.sublist List.filter_sublist : Tidy p (msgs.filter fun m =>
    m.clientMsgId = some c)).nodup
  have hmem {m : Message} (hm : m ∈ msgs.filter fun m => m.clientMsgId = some c) :
      m ∈ msgs ∧ m.clientMsgId = some c :=
    ⟨(List.mem_filter.mp hm).1, of_decide_eq_true (List.mem_filter.mp hm).2⟩
  rcases hcopies : msgs.filter fun m => m.clientMsgId = some c with - | ⟨m, - | ⟨m', rest⟩⟩
  · rw [hcopies]
    exact Nat.zero_le 1
  · rw [hcopies]
    exact le_rfl
  · have hm := hmem (hcopies ▸ List.mem_cons_self : m ∈ _)
    have hm' := hmem (hcopies ▸ List.mem_cons_of_mem _ List.mem_cons_self : m' ∈ _)
    rw [hcopies] at hids
    have hne : m.id ≠ m'.id := fun heq => (List.nodup_cons.mp hids).1 (by simp [heq])
    exact absurd (h.id_eq hu hone hm.1 hm'.1 hm.2 hm'.2) hne

lemma Unechoed.retry {p : Past} (h : Tidy p msgs) (hu : Unechoed p msgs) {ourClientId : String}
    {f : Frame} (hf : f ∈ Chat.retryPendingChats now ourClientId msgs) :
    f.clientMsgId ∉ p.echoes.map Prod.fst := by
  obtain ⟨m, hm, hframe⟩ := List.mem_filterMap.mp hf
  obtain ⟨hm, hretry⟩ := List.mem_filter.mp hm
  obtain ⟨c, hc, rfl⟩ := Option.map_eq_some_iff.mp hframe
  have hp : m.pending = true := (of_decide_eq_true hretry).1
  have hid : m.id = c := Option.some.inj ((h.pending m hm hp).1.symm.trans hc)
  rintro hmem
  obtain ⟨e, he, heq⟩ := List.mem_map.mp hmem
  have hpair : (m.id, e.2) ∈ p.echoes := by
    rw [hid, show c = e.1 from heq.symm]
    exact he
  exact hu m hm hp e.2 hpair

/-- **No duplicated message**: in a run in which an echo finds the list of its message selected,
and no merge brings back what was echoed, a message that was sent once is once in a list, and what
was echoed is not sent again. -/
theorem no_duplicate {w₀ : World} (h₀ : Clean w₀)
    (h : Reach World.step (fun w op => Fresh w op ∧ Reconciled w op) w₀ w) :
    (∀ room c, w.past.sent.count c ≤ 1 →
      ((w.list room).filter fun m => m.clientMsgId = some c).length ≤ 1) ∧
    ∀ now ourClientId, ∀ f ∈ Chat.retryPendingChats now ourClientId (w.list w.roomSlug),
      f.clientMsgId ∉ w.past.echoes.map Prod.fst := by
  have hsound : Sound w :=
    h.invariant h₀.sound fun _ _ _ hw hg hs => hw.step hg.1 hg.2 hs
  refine ⟨fun room c hsent => ?_, fun now ourClientId f hf => ?_⟩
  · have hcounts := hsound.counts c
    exact (hsound.list room).length_le_one (hsound.unechoed room) (by omega)
  · exact (hsound.unechoed w.roomSlug).retry (hsound.list w.roomSlug) hf

end Sound

instance (w : World) : ∀ op, Decidable (Fresh w op)
  | .send .. | .echo .. => inferInstanceAs (Decidable (_ ∉ _))
  | .receive .. => inferInstanceAs (Decidable (_ ∉ _ ∧ _))
  | .switchRoom _ | .uploadProgress .. | .uploadFailed .. | .uploaded .. | .persist _ | .commit _
  | .loadChatRoom _ | .read .. | .merge _ | .retryPendingChats .. =>
    inferInstanceAs (Decidable True)

instance (w : World) : ∀ op, Decidable (Reconciled w op)
  | .echo .. => inferInstanceAs (Decidable (∀ _ ∈ _, _))
  | .merge .. => inferInstanceAs (Decidable (∀ _ ∈ _, _))
  | .send .. | .receive .. | .switchRoom _ | .uploadProgress .. | .uploadFailed .. | .uploaded ..
  | .persist _ | .commit _ | .loadChatRoom _ | .read .. | .retryPendingChats .. =>
    inferInstanceAs (Decidable True)

/-- A first page: nothing has ever been sent. -/
def firstPage : World where
  roomSlug := "r"
  chatByRoom := ∅
  records _ := []
  writes := []
  loads := []
  persistTimer := false
  frames := []
  past := ⟨[], [], [], []⟩

lemma clean_firstPage : Clean firstPage :=
  ⟨rfl, rfl, rfl, rfl, fun _ => tidy_nil _, by simp [firstPage], fun _ => le_rfl⟩

/-- The echo is written before the history is read. -/
def echoedRun : List Op :=
  [.send "r" "c" "hi" (some "us") [] 0, .commit 0, .echo 0 "s" 1 (some "us"), .persist 2, .commit 0,
    .loadChatRoom "r", .read 0 3, .merge 0, .retryPendingChats 4 "us"]

/-- The history is read before the echo. -/
def staleRun : List Op :=
  [.send "r" "c" "hi" (some "us") [] 0, .commit 0, .loadChatRoom "r", .read 0 1,
    .echo 0 "s" 2 (some "us"), .merge 0]

theorem no_duplicate_echoed :
    let w := (run World.step firstPage echoedRun).getD firstPage
    w.list "r" = [⟨"s", "hi", 1, some "c", false, some "us", [], false⟩] ∧
      (∀ room c, w.past.sent.count c ≤ 1 →
        ((w.list room).filter fun m => m.clientMsgId = some c).length ≤ 1) ∧
      ∀ now ourClientId, ∀ f ∈ Chat.retryPendingChats now ourClientId (w.list w.roomSlug),
        f.clientMsgId ∉ w.past.echoes.map Prod.fst :=
  ⟨by decide +kernel,
    no_duplicate clean_firstPage (Reach.of_isSome (by decide +kernel) (by decide +kernel))⟩

/-- **Not in every run**: the copy that was read comes back beside the message, and is sent
again. -/
theorem duplicated :
    ∃ w, Reach World.step Fresh firstPage w ∧ w.past.sent.count "c" = 1 ∧
      (w.list "r").map Message.id = ["c", "s"] ∧
      ((w.list "r").filter fun m => m.clientMsgId = some "c").length = 2 ∧
      w.past.echoes = [("c", "s")] ∧
      Chat.retryPendingChats 3 "us" (w.list w.roomSlug) = [⟨"hi", "c", []⟩] :=
  ⟨(run World.step firstPage staleRun).getD firstPage,
    Reach.of_isSome (by decide +kernel) (by decide +kernel), by decide +kernel, by decide +kernel,
    by decide +kernel, by decide +kernel, by decide +kernel⟩

end VoiceHub.Client.Chat
