import Mathlib
import VoiceHub.Lib.Pool
import VoiceHub.Lib.Machine
import VoiceHub.Sfu.Room.State

/-!
The operations of a room, cut at their critical sections.

An operation is the list of steps its thread has still to take. A step is one critical
section under `Room::state` or under a session's lock, one read of a session's publisher,
one queued message, or one closed PC; what a section read from the guarded state is carried
by the steps it leaves behind. A message is numbered by the section that computed it.
-/

namespace VoiceHub.Sfu.Room

open VoiceHub.Lib

inductive Delta
  | joined (info : PeerInfo)
  | left (id : PeerId)
  | updated (info : PeerInfo)
  deriving DecidableEq

inductive Encode | pause | resume
  deriving DecidableEq

inductive EndReason
  | publisherRequestedStop
  | publisherPcClosed
  | graceExpired (timer : TimerId)
  deriving DecidableEq

/-- `screen-share-start`, with what `setup_screen_pub` makes of its offer: the codec, or
nothing when it fails. -/
structure StartData where
  hasSystemAudio : Bool
  mode : Option ScreenShareMode
  codec : Option ScreenVideoCodec
  deriving DecidableEq

inductive Act
  | addPeer (p : Peer) (displayName : String)
  | removePeer (id : PeerId)
  | setDisplayName (id : PeerId) (name : String)
  | setState (id : PeerId) (selfMuted deafened : Bool)
  /-- `peer.cancel.cancel()` -/
  | cancel (id : PeerId)
  /-- `Peer::send` -/
  | send (seq : ℕ) (op : PeerId) (m : Msg)
  /-- `Hub::push`, which the room itself does not see -/
  | presence (seq : ℕ) (d : Delta)
  /-- `Pc::close` on a subscriber PC -/
  | close (pc : PcId)
  /-- `ScreenSub::on_closed` -/
  | subClosed (pc : PcId)
  | removeScreenSub (subId publisherId : PeerId) (only : Option PcId)
  /-- the second section of `remove_screen_sub` -/
  | dropSubscriber (subId publisherId : PeerId) (s : SessionId) (only : Option PcId)
  | sendEncode (publisherId : PeerId) (event : Encode)
  /-- the session `id` left behind -/
  | startScreenShareGrace (s : SessionId) (id : PeerId)
  | cancelTimer (t : TimerId)
  | screenShareStart (id : PeerId) (data : StartData)
  /-- the second section of `handle_screen_share_start` -/
  | registerSession (id : PeerId) (s : SessionId)
  | screenShareStop (id : PeerId)
  | endScreenShareSession (s : SessionId) (reason : EndReason)
  /-- `Pc::close` on a publisher PC -/
  | closePublisher (s : SessionId)
  /-- `end_screen_share_session` reads the publisher id -/
  | endSubscribers (s : SessionId) (subs : List PcId)
  /-- `e.screen_subs.remove(publisher)` for one viewer -/
  | detach (peerId publisherId : PeerId)
  /-- the last section of `end_screen_share_session` -/
  | endRoster (s : SessionId) (publisherId : PeerId)
  /-- the task `ScreenSession::on_closed` spawns -/
  | findSession (token : Token)
  | screenShareResume (id : PeerId) (token : Token)
  /-- the last section of `handle_screen_share_resume` -/
  | announceResume (id : PeerId) (s : SessionId) (old : PeerId)
  | screenShareSubscribe (subId publisherId : PeerId) (offer : Bool)
  /-- `handle_screen_share_subscribe` reads the publisher id and builds the PC -/
  | subscribePublisher (subId : PeerId) (s : SessionId) (offer : Bool)
  | insertSubscriber (subId publisherId : PeerId) (s : SessionId) (pc : PcId)
  | attachSub (subId publisherId : PeerId) (s : SessionId) (pc : PcId) (first : Bool)
  | firstScreenVideoReady (s : SessionId)
  /-- `first_screen_video_ready` reads the publisher id -/
  | firstVideoPublisher (s : SessionId)
  | firstVideoAnnounce (s : SessionId) (publisherId : PeerId)
  /-- `first_screen_video_ready` looks for subscribers -/
  | firstVideoIdle (s : SessionId) (publisherId : PeerId)
  /-- `deliver` returns, and the PC's `dispatch` lock is free -/
  | delivered (pc : PcId)
  deriving DecidableEq

/-- What the code leaves open: the order of hash maps, and whether a subscriber's `Weak`
still upgrades to a session that was ended. -/
structure Choice where
  order : Order
  upgrade : Bool

def Choice.plain : Choice := ⟨.plain, true⟩

abbrev Effect := Outcome State Act

/-- `broadcast`. -/
def broadcast (seq : ℕ) (peers : List PeerId) (m : Msg) : List Act := peers.map (.send seq · m)

namespace State

variable (st : State) (ord : Order)

def go (next : List Act) : Effect := ⟨st, next, []⟩

/-- `n` messages were computed. -/
def tick (n : ℕ) : State := { st with clock := st.clock + n }

/-! ### Joining and leaving -/

/-- `st.peers.values().filter(|e| e.peer.client_id == p.client_id)` -/
def evicted (p : Peer) : List Entry :=
  if p.clientId = "" then []
  else (ord.list st.peers.values).filter fun e => e.peer.clientId = p.clientId

/-- The peers an arriving one leaves in place. -/
def staying (p : Peer) : State :=
  { st with peers := (st.evicted ord p).foldl (fun ps e => ps.remove e.peer.id) st.peers }

def newEntry (p : Peer) (displayName : String) : Entry := ⟨p, displayName, false, false, none, ∅⟩

/-- What `add_peer` does for the `i`-th session it evicted. -/
def dropEvicted (others : List PeerId) (ev : Entry) (i : ℕ) : List Act :=
  .cancel ev.peer.id :: (ord.list (HashMap.values ev.screenSubs)).map .close ++
    broadcast (st.clock + i) others (.peerLeft ev.peer.id)

def addPeer (p : Peer) (displayName : String) : Option Effect :=
  if (st.seen p.id).isSome then none
  else
    let evicted := st.evicted ord p
    let rest := st.staying ord p
    let existing := (ord.list rest.peers.values).map st.info
    let others := rest.all ord
    let entry := newEntry p displayName
    let n := evicted.length
    some <| go
      { st with
        peers := rest.peers.insert entry
        seen := Function.update st.seen p.id (some p)
        clock := st.clock + (n + 2) } <|
      (evicted.zipIdx.flatMap fun (ev, i) => st.dropEvicted ord others ev i) ++
      .send (st.clock + n) p.id (.welcome p.id existing) ::
      broadcast (st.clock + n + 1) others (.peerJoined (st.info entry)) ++
      (evicted.zipIdx.map fun (ev, i) => .presence (st.clock + i) (.left ev.peer.id)) ++
      [.presence (st.clock + n + 1) (.joined (st.info entry))]

def removePeer (id : PeerId) : Effect :=
  match st.peers.get id with
  | none => st.go []
  | some e =>
    let st' := { st with peers := st.peers.remove id }
    go (st'.tick 1) <|
      (ord.list (HashMap.values e.screenSubs)).map .close ++
      (e.screenSession.toList.map (.startScreenShareGrace · id)) ++
      .cancel id :: broadcast st.clock (st'.all ord) (.peerLeft id) ++
      [.presence st.clock (.left id)]

/-! ### Names, states and the queues -/

def setDisplayName (id : PeerId) (name : String) : Effect :=
  match st.peers.get id with
  | none => st.go []
  | some e =>
    let st' := { st with peers := st.peers.modify id ({ · with displayName := name }) }
    let info := st.info { e with displayName := name }
    go (st'.tick 1) <|
      broadcast st.clock (st'.others ord id) (.peerInfo info) ++ [.presence st.clock (.updated info)]

def setState (id : PeerId) (selfMuted deafened : Bool) : Effect :=
  match st.peers.get id with
  | none => st.go []
  | some e =>
    let f (e : Entry) : Entry := { e with selfMuted := selfMuted, deafened := deafened }
    let st' := { st with peers := st.peers.modify id f }
    let info := st.info (f e)
    go (st'.tick 1) <|
      broadcast st.clock (st'.others ord id) (.peerState id selfMuted deafened) ++
      [.presence st.clock (.updated info)]

def cancel (id : PeerId) : State :=
  { st with outbox := Function.update st.outbox id { st.outbox id with cancelled := true } }

def send (op : PeerId) (m : Msg) : State :=
  { st with outbox := Function.update st.outbox op ((st.outbox op).send m) }

/-- `send_event` to the peer whose message is handled. -/
def reply (id : PeerId) (ms : List Msg) : Effect :=
  go (st.tick ms.length) (ms.zipIdx.map fun (m, i) => .send (st.clock + i) id m)

def sendEncode (publisherId : PeerId) (event : Encode) : Effect :=
  match st.peers.get publisherId with
  | none => st.go []
  | some _ => st.reply publisherId
      [match event with | .pause => .screenShareEncodePause | .resume => .screenShareEncodeResume]

/-! ### Starting, stopping and resuming a share -/

/-- The first section, and `setup_screen_pub`. -/
def screenShareStart (id : PeerId) (data : StartData) : Effect :=
  if (st.owned id).isSome then st.reply id [.screenShareError "" .alreadyPublishing]
  else
    match data.codec with
    | none => st.reply id [.screenShareError "" .internal]
    | some codec =>
      let s : ScreenSession :=
        ⟨id, st.next, data.hasSystemAudio, codec, data.mode.getD .sharp, st.next, false, ∅, none,
          false⟩
      go { st with sessions := Function.update st.sessions st.next s, next := st.next + 1 }
        [.registerSession id st.next]

def registerSession (id : PeerId) (s : SessionId) : Effect :=
  match st.peers.get id with
  | some e =>
    if e.screenSession.isNone then
      reply
        { st with
          peers := st.peers.modify id ({ · with screenSession := some s })
          sessionsByToken := AList.insert (st.sessions s).token s st.sessionsByToken
          tookAt := Function.update st.tookAt id (st.outbox id).log.length }
        id [.screenShareStarted (st.sessions s).token, .answer]
    else st.go [.closePublisher s]
  | none => st.go [.closePublisher s]

def screenShareStop (id : PeerId) : Effect :=
  match st.owned id with
  | none => st.go []
  | some s => st.go [.endScreenShareSession s .publisherRequestedStop]

/-- `if let Some(prev) = grace.replace(..) { prev.cancel() }` -/
def cancelPrev (cancelled : TimerId → Bool) : Option TimerId → TimerId → Bool
  | none => cancelled
  | some prev => Function.update cancelled prev true

/-- The section under the session's lock. -/
def startScreenShareGrace (s : SessionId) : Effect :=
  if (st.sessions s).closed then st.go []
  else
    let t := st.next
    go
      { st.setSession s ({ · with grace := some t }) with
        cancelled := cancelPrev st.cancelled (st.sessions s).grace, timers := (t, s) :: st.timers, next := st.next + 1 }
      []

def endScreenShareSession (s : SessionId) : Effect :=
  if (st.sessions s).closed then st.go []
  else
    let subs := ord.list (HashMap.values (st.sessions s).subscribers)
    go (st.setSession s ({ · with closed := true, subscribers := ∅, grace := none })) <|
      ((st.sessions s).grace.toList.map .cancelTimer) ++
      [.closePublisher s, .endSubscribers s subs]

/-- A PC that is open waits for an event in delivery. Its `on_closed` runs once, and leaves the
rest to a task. -/
def closePublisher (s : SessionId) : Option Effect :=
  let pc := (st.sessions s).publisherPc
  if st.pcClosed pc then some (st.go [])
  else if st.dispatch pc then none
  else
    some ⟨{ st with pcClosed := Function.update st.pcClosed pc true }, [],
      [[.findSession (st.sessions s).token]]⟩

def findSession (token : Token) : Effect :=
  match st.sessionsByToken.lookup token with
  | none => st.go []
  | some s => st.go [.endScreenShareSession s .publisherPcClosed]

/-- Closes one subscriber PC and takes it off its viewer. -/
def closeAndDetach (publisherId : PeerId) (pc : PcId) : List Act :=
  .close pc :: ((st.subs pc).toList.map fun x => .detach x.peerId publisherId)

def endSubscribers (s : SessionId) (subs : List PcId) : Effect :=
  let publisherId := (st.sessions s).publisherId
  st.go <| (subs.flatMap fun pc => st.closeAndDetach publisherId pc) ++ [.endRoster s publisherId]

def detach (peerId publisherId : PeerId) : State :=
  { st with
    peers := st.peers.modify peerId fun e =>
      { e with screenSubs := AList.erase publisherId e.screenSubs } }

def endRoster (s : SessionId) (publisherId : PeerId) : Effect :=
  let st' : State :=
    { st with
      sessionsByToken := AList.erase (st.sessions s).token st.sessionsByToken
      peers := st.peers.modify publisherId fun e =>
        if e.screenSession = some s then { e with screenSession := none } else e }
  let ended := Msg.screenShareEnded publisherId
  match st'.peers.get publisherId with
  | some e =>
    let info := st.info e
    go (st'.tick 2) <|
      ((st'.all ord).flatMap fun op =>
        .send st.clock op ended ::
          if op ≠ info.id then [.send (st.clock + 1) op (.peerInfo info)] else []) ++
      [.presence (st.clock + 1) (.updated info)]
  | none => go (st'.tick 2) (broadcast st.clock (st'.all ord) ended)

/-- The claim: under `Room::state`, and from the `closed` test on under the session's lock
too. -/
def screenShareResume (id : PeerId) (token : Token) : Effect :=
  match st.sessionsByToken.lookup token with
  | none => st.reply id [.screenShareError "" .invalidToken]
  | some s =>
    let old := (st.sessions s).publisherId
    if (st.peers.get old).isSome ∧ old ≠ id then st.reply id [.screenShareError "" .invalidToken]
    else
      match st.peers.get id with
      | none => st.go []
      | some e =>
        if e.screenSession.isSome ∧ e.screenSession ≠ some s then
          st.reply id [.screenShareError "" .alreadyPublishing]
        else if (st.sessions s).closed then st.reply id [.screenShareError "" .invalidToken]
        else
          let stale := ord.list (HashMap.values (st.sessions s).subscribers)
          go
            { st.setSession s ({ · with publisherId := id, grace := none, subscribers := ∅ }) with
              peers := st.peers.modify id ({ · with screenSession := some s })
              tookAt := Function.update st.tookAt id (st.outbox id).log.length } <|
            ((st.sessions s).grace.toList.map .cancelTimer) ++
            (stale.flatMap fun pc => st.closeAndDetach old pc) ++
            [.announceResume id s old]

/-- `ScreenSession::available_msg` -/
def availableMsg (s : SessionId) (publisherId : PeerId) : Msg :=
  .screenShareAvailable publisherId (st.sessions s).hasSystemAudio (st.sessions s).videoCodec
    (st.sessions s).mode

def announceResume (id : PeerId) (s : SessionId) (old : PeerId) : Effect :=
  match st.peers.get id with
  | none => st.go []
  | some e =>
    let info := st.info e
    go (st.tick 4) <|
      ((st.others ord id).flatMap fun op =>
        [.send st.clock op (.peerInfo info), .send (st.clock + 1) op (.screenShareEnded old),
          .send (st.clock + 2) op (st.availableMsg s id)]) ++
      [.presence st.clock (.updated info),
        .send (st.clock + 3) id (.screenShareStarted (st.sessions s).token)]

/-! ### Viewers -/

def screenShareSubscribe (subId publisherId : PeerId) (offer : Bool) : Effect :=
  match st.owned publisherId with
  | none => st.reply subId [.screenShareError publisherId .notFound]
  | some s =>
    if (st.subOf subId publisherId).isSome then st.go []
    else st.go [.subscribePublisher subId s offer]

def subscribePublisher (subId : PeerId) (s : SessionId) (offer : Bool) : Effect :=
  let publisherId := (st.sessions s).publisherId
  let pc := st.next
  let st' : State :=
    { st with subs := Function.update st.subs pc (some ⟨subId, s⟩), next := st.next + 1 }
  if offer then st'.go [.insertSubscriber subId publisherId s pc]
  else
    go (st'.tick 1) [.close pc, .send st.clock subId (.screenShareError publisherId .internal)]

def insertSubscriber (subId publisherId : PeerId) (s : SessionId) (pc : PcId) : Effect :=
  if (st.sessions s).closed then
    go (st.tick 1) [.close pc, .send st.clock subId (.screenShareError publisherId .notFound)]
  else
    let subscribers := AList.insert subId pc (st.sessions s).subscribers
    go (st.setSession s ({ · with subscribers := subscribers }))
      [.attachSub subId publisherId s pc (HashMap.len subscribers = 1)]

def attachSub (subId publisherId : PeerId) (pc : PcId) (first : Bool) : Effect :=
  match st.peers.get subId with
  | some _ =>
    let st' : State :=
      { st with
        peers := st.peers.modify subId fun e =>
          { e with screenSubs := AList.insert publisherId pc e.screenSubs } }
    go (st'.tick 1) <|
      .send st.clock subId (.offer publisherId) ::
        if first then [.sendEncode publisherId .resume] else []
  | none => st.go [.removeScreenSub subId publisherId (some pc)]

/-- Only once: the flag is swapped. A subscriber's `on_closed` follows in the same thread. -/
def close (pc : PcId) : Effect :=
  if st.pcClosed pc then st.go []
  else go { st with pcClosed := Function.update st.pcClosed pc true } [.subClosed pc]

def subClosed (upgrade : Bool) (pc : PcId) : Effect :=
  match st.subs pc with
  | none => st.go []
  | some x =>
    if (st.sessions x.session).closed ∧ ¬upgrade then st.go []
    else
      st.go [.removeScreenSub x.peerId (st.sessions x.session).publisherId (some pc)]

/-- `only.is_none_or(|pc| Arc::ptr_eq(&s.pc, pc))` on the subscription found. -/
def matched (only : Option PcId) (found : Option PcId) : Option PcId :=
  if only = none ∨ found = only then found else none

def removeScreenSub (subId publisherId : PeerId) (only : Option PcId) : Effect :=
  let sub := matched only (st.subOf subId publisherId)
  let st' := if sub.isSome then st.detach subId publisherId else st
  st'.go <| sub.toList.map .close ++
    ((st.owned publisherId).toList.map fun s => .dropSubscriber subId publisherId s only)

def dropSubscriber (subId publisherId : PeerId) (s : SessionId) (only : Option PcId) : Effect :=
  match matched only (st.subscriber s subId) with
  | none => st.go []
  | some pc =>
    let subscribers := AList.erase subId (st.sessions s).subscribers
    go (st.setSession s ({ · with subscribers := subscribers })) <|
      .close pc :: if HashMap.isEmpty subscribers then [.sendEncode publisherId .pause] else []

/-! ### The first video packet -/

/-- In `deliver`, which returns when this is done. -/
def firstScreenVideoReady (s : SessionId) : Effect :=
  if (st.sessions s).closed then st.go [.delivered (st.sessions s).publisherPc]
  else st.go [.firstVideoPublisher s, .delivered (st.sessions s).publisherPc]

def firstVideoAnnounce (s : SessionId) (publisherId : PeerId) : Effect :=
  match st.peers.get publisherId with
  | none => st.go []
  | some e =>
    let info := st.info e
    go (st.tick 2) <|
      ((st.others ord publisherId).flatMap fun op =>
        [.send st.clock op (.peerInfo info), .send (st.clock + 1) op (st.availableMsg s publisherId)])
      ++ [.presence st.clock (.updated info), .firstVideoIdle s publisherId]

def firstVideoIdle (s : SessionId) (publisherId : PeerId) : Effect :=
  if HashMap.isEmpty (st.sessions s).subscribers then st.go [.sendEncode publisherId .pause]
  else st.go []

end State

/-- One step, if it can be taken: peer ids do not repeat, and a lock may be held. -/
def exec (ch : Choice) (a : Act) (st : State) : Option Effect :=
  match a with
  | .addPeer p displayName => st.addPeer ch.order p displayName
  | .removePeer id => st.removePeer ch.order id
  | .setDisplayName id name => st.setDisplayName ch.order id name
  | .setState id selfMuted deafened => st.setState ch.order id selfMuted deafened
  | .cancel id => go' (st.cancel id)
  | .send _ op m => go' (st.send op m)
  | .presence _ _ => st.go []
  | .close pc => st.close pc
  | .subClosed pc => st.subClosed ch.upgrade pc
  | .removeScreenSub subId publisherId only => st.removeScreenSub subId publisherId only
  | .dropSubscriber subId publisherId s only => st.dropSubscriber subId publisherId s only
  | .sendEncode publisherId event => st.sendEncode publisherId event
  | .startScreenShareGrace s _ => st.startScreenShareGrace s
  | .cancelTimer t => go' { st with cancelled := Function.update st.cancelled t true }
  | .screenShareStart id data => st.screenShareStart id data
  | .registerSession id s => st.registerSession id s
  | .screenShareStop id => st.screenShareStop id
  | .endScreenShareSession s _ => st.endScreenShareSession ch.order s
  | .closePublisher s => st.closePublisher s
  | .endSubscribers s subs => st.endSubscribers s subs
  | .detach peerId publisherId => go' (st.detach peerId publisherId)
  | .endRoster s publisherId => st.endRoster ch.order s publisherId
  | .findSession token => st.findSession token
  | .screenShareResume id token => st.screenShareResume ch.order id token
  | .announceResume id s old => st.announceResume ch.order id s old
  | .screenShareSubscribe subId publisherId offer => st.screenShareSubscribe subId publisherId offer
  | .subscribePublisher subId s offer => st.subscribePublisher subId s offer
  | .insertSubscriber subId publisherId s pc => st.insertSubscriber subId publisherId s pc
  | .attachSub subId publisherId _ pc first => st.attachSub subId publisherId pc first
  | .firstScreenVideoReady s => st.firstScreenVideoReady s
  | .firstVideoPublisher s => st.go [.firstVideoAnnounce s (st.sessions s).publisherId]
  | .firstVideoAnnounce s publisherId => st.firstVideoAnnounce ch.order s publisherId
  | .firstVideoIdle s publisherId => st.firstVideoIdle s publisherId
  | .delivered pc => go' { st with dispatch := Function.update st.dispatch pc false }
where go' (st : State) : Option Effect := some (st.go [])

lemma closePublisher_spec {st : State} {s : SessionId} {r : Effect}
    (h : st.closePublisher s = some r) :
    r = st.go [] ∨
      r = ⟨{ st with pcClosed := Function.update st.pcClosed (st.sessions s).publisherPc true }, [],
        [[.findSession (st.sessions s).token]]⟩ := by
  simp only [State.closePublisher] at h
  split_ifs at h
  · exact .inl (Option.some.inj h).symm
  · exact .inr (Option.some.inj h).symm

/-! ### What a step leaves alone -/

/-- The steps that move a queue, a PC or a lock, or give a peer a session. -/
def Act.moves : Act → Bool
  | .cancel .. | .send .. | .close .. | .closePublisher .. | .delivered .. | .screenShareStart ..
  | .registerSession .. | .screenShareResume .. | .subscribePublisher .. => true
  | .addPeer .. | .removePeer .. | .setDisplayName .. | .setState .. | .presence .. | .subClosed ..
  | .removeScreenSub .. | .dropSubscriber .. | .sendEncode .. | .startScreenShareGrace ..
  | .cancelTimer .. | .screenShareStop .. | .endScreenShareSession .. | .endSubscribers ..
  | .detach .. | .endRoster .. | .findSession .. | .announceResume .. | .screenShareSubscribe ..
  | .insertSubscriber .. | .attachSub .. | .firstScreenVideoReady .. | .firstVideoPublisher ..
  | .firstVideoAnnounce .. | .firstVideoIdle .. => false

/-- What every other step leaves alone. -/
structure Still (st : State) (r : Effect) : Prop where
  outbox : r.st.outbox = st.outbox
  pcClosed : r.st.pcClosed = st.pcClosed
  dispatch : r.st.dispatch = st.dispatch
  subs : r.st.subs = st.subs
  tookAt : r.st.tookAt = st.tookAt
  next : st.next ≤ r.st.next
  publisherPc : ∀ s, (r.st.sessions s).publisherPc = (st.sessions s).publisherPc
  spawned : r.spawned = []

lemma publisherPc_update {f : SessionId → ScreenSession} {s : SessionId} {y : ScreenSession}
    (hy : y.publisherPc = (f s).publisherPc) (s' : SessionId) :
    (Function.update f s y s').publisherPc = (f s').publisherPc := by
  rw [Function.update_apply]
  split_ifs with h
  · rw [hy, h]
  · rfl

lemma exec_still {ch : Choice} {a : Act} {st : State} {r : Effect} (h : exec ch a st = some r)
    (ha : a.moves = false) : Still st r := by
  have same : ∀ next, Still st (st.go next) := fun _ =>
    ⟨rfl, rfl, rfl, rfl, rfl, le_rfl, fun _ => rfl, rfl⟩
  cases a
  case addPeer p name =>
    simp only [exec, State.addPeer] at h
    split at h <;> cases h
    exact ⟨rfl, rfl, rfl, rfl, rfl, le_rfl, fun _ => rfl, rfl⟩
  case cancel | send | close | closePublisher | delivered | screenShareStart | registerSession |
      screenShareResume | subscribePublisher => cases ha
  all_goals obtain rfl := Option.some.inj h
  case startScreenShareGrace s id =>
    simp only [State.startScreenShareGrace]
    split
    · exact same _
    · exact ⟨rfl, rfl, rfl, rfl, rfl, Nat.le_succ _, publisherPc_update (by rfl), rfl⟩
  case endScreenShareSession s reason =>
    simp only [State.endScreenShareSession]
    split
    · exact same _
    · exact ⟨rfl, rfl, rfl, rfl, rfl, le_rfl, publisherPc_update (by rfl), rfl⟩
  case insertSubscriber v p s pc =>
    simp only [State.insertSubscriber]
    split
    · exact ⟨rfl, rfl, rfl, rfl, rfl, le_rfl, fun _ => rfl, rfl⟩
    · exact ⟨rfl, rfl, rfl, rfl, rfl, le_rfl, publisherPc_update (by rfl), rfl⟩
  case dropSubscriber v p s only =>
    simp only [State.dropSubscriber]
    split
    · exact same _
    · exact ⟨rfl, rfl, rfl, rfl, rfl, le_rfl, publisherPc_update (by rfl), rfl⟩
  case presence | cancelTimer | detach | firstVideoPublisher =>
    exact ⟨rfl, rfl, rfl, rfl, rfl, le_rfl, fun _ => rfl, rfl⟩
  case endRoster s p =>
    simp only [State.endRoster]
    split <;> exact ⟨rfl, rfl, rfl, rfl, rfl, le_rfl, fun _ => rfl, rfl⟩
  all_goals
    simp only [State.removePeer, State.setDisplayName, State.setState, State.subClosed,
      State.removeScreenSub, State.sendEncode, State.screenShareStop, State.endSubscribers,
      State.findSession, State.announceResume, State.screenShareSubscribe, State.attachSub,
      State.firstScreenVideoReady, State.firstVideoAnnounce, State.firstVideoIdle]
    repeat' split
    all_goals exact ⟨rfl, rfl, rfl, rfl, rfl, le_rfl, fun _ => rfl, rfl⟩

lemma exec_spawned {ch : Choice} {a : Act} {st : State} {r : Effect} (h : exec ch a st = some r) :
    r.spawned = [] ∨ ∃ t, r.spawned = [[.findSession t]] := by
  by_cases ha : a.moves = false
  · exact .inl (exec_still h ha).spawned
  cases a
  case closePublisher s =>
    obtain rfl | rfl := closePublisher_spec h
    · exact .inl rfl
    · exact .inr ⟨_, rfl⟩
  case cancel | send | close | delivered | screenShareStart | registerSession | screenShareResume |
      subscribePublisher =>
    left
    obtain rfl := Option.some.inj h
    first
    | rfl
    | simp only [State.close, State.screenShareStart, State.registerSession,
        State.screenShareResume, State.subscribePublisher]
      repeat' split
      all_goals rfl
  all_goals exact absurd rfl ha

/-! ### Runs -/

/-- What starts a thread, or moves a timer or a queue, from outside. -/
inductive Event
  | join (p : Peer) (displayName : String)
  | leave (id : PeerId)
  | setDisplayName (id : PeerId) (name : String)
  | setState (id : PeerId) (selfMuted deafened : Bool)
  | screenShareStart (id : PeerId) (data : StartData)
  | screenShareStop (id : PeerId)
  | screenShareResume (id : PeerId) (token : Token)
  | screenShareSubscribe (subId publisherId : PeerId) (offer : Bool)
  | screenShareUnsubscribe (subId publisherId : PeerId)
  | subPcDied (pc : PcId)
  | publisherPcDied (s : SessionId)
  | firstVideo (s : SessionId)
  /-- a grace task picks its expired branch -/
  | graceExpired (t : TimerId) (s : SessionId)
  /-- a grace task picks its cancelled branch -/
  | graceCancelled (t : TimerId) (s : SessionId)
  /-- the writer takes a message -/
  | drain (id : PeerId)
  /-- a message of no interest here is queued -/
  | other (id : PeerId)

/-- The state after an event, and the thread it starts: whose it is and what it does. -/
def Event.begin (st : State) : Event → Option (State × Option PeerId × List Act)
  | join p displayName => some (st, some p.id, [.addPeer p displayName])
  | leave id => message id (.removePeer id)
  | setDisplayName id name => message id (.setDisplayName id name)
  | setState id selfMuted deafened => message id (.setState id selfMuted deafened)
  | screenShareStart id data => message id (.screenShareStart id data)
  | screenShareStop id => message id (.screenShareStop id)
  | screenShareResume id token => message id (.screenShareResume id token)
  | screenShareSubscribe subId publisherId offer =>
    message subId (.screenShareSubscribe subId publisherId offer)
  | screenShareUnsubscribe subId publisherId =>
    message subId (.removeScreenSub subId publisherId none)
  | subPcDied pc => if (st.subs pc).isSome then some (st, none, [.close pc]) else none
  | publisherPcDied s => some (st, none, [.closePublisher s])
  | firstVideo s =>
    let pc := (st.sessions s).publisherPc
    if (st.sessions s).firstVideo ∨ st.dispatch pc then none
    else
      some ({ st.setSession s ({ · with firstVideo := true }) with
        dispatch := Function.update st.dispatch pc true }, none, [.firstScreenVideoReady s])
  | graceExpired t s =>
    if (t, s) ∈ st.timers then
      some ({ st with timers := st.timers.erase (t, s) }, none,
        [.endScreenShareSession s (.graceExpired t)])
    else none
  | graceCancelled t s =>
    if (t, s) ∈ st.timers ∧ st.cancelled t then
      some ({ st with timers := st.timers.erase (t, s) }, none, [])
    else none
  | drain id =>
    if 0 < (st.outbox id).queued then
      some ({ st with outbox := Function.update st.outbox id (st.outbox id).drain }, none, [])
    else none
  | other id => some (st.send id .other, none, [])
where
  /-- A message of a peer that joined. -/
  message (id : PeerId) (a : Act) : Option (State × Option PeerId × List Act) :=
    if (st.seen id).isSome then some (st, some id, [a]) else none

lemma Event.begin_todo {e : Event} {st st' : State} {o : Option PeerId} {todo : List Act}
    (h : e.begin st = some (st', o, todo)) : todo = [] ∨ ∃ a, todo = [a] := by
  cases e <;> simp only [begin, begin.message] at h <;> (try split at h) <;> cases h <;> simp

abbrev Config := Pool State (Option PeerId) Act

inductive Label
  | run (i : ℕ) (ch : Choice)
  | event (e : Event)

/-- One step of the room: a thread goes on, or something comes in. A peer's next message is
handled only when its last one is done. -/
def step (c : Config) : Label → Option Config
  | .run i ch => c.advance (exec ch) none i
  | .event e =>
    match e.begin c.st with
    | none => none
    | some (st, none, todo) => some (c.launch st none todo)
    | some (st, some id, todo) => if c.Free (some id) then some (c.launch st (some id) todo) else none

/-- The steps of a list that a view of the room looks at. -/
def watched (p : Act → Bool) (l : List Act) : List Act := l.filter p

section Watched

variable {p : Act → Bool}

@[simp] lemma watched_nil : watched p [] = [] := rfl

@[simp] lemma watched_append (l l' : List Act) :
    watched p (l ++ l') = watched p l ++ watched p l' := List.filter_append ..

@[simp] lemma watched_cons (a : Act) (l : List Act) :
    watched p (a :: l) = if p a then a :: watched p l else watched p l := List.filter_cons

@[simp] lemma watched_map {α : Type} (f : α → Act) (l : List α) :
    watched p (l.map f) = (l.filter fun x => p (f x)).map f := List.filter_map ..

@[simp] lemma watched_flatMap {α : Type} (f : α → List Act) (l : List α) :
    watched p (l.flatMap f) = l.flatMap fun x => watched p (f x) := List.filter_flatMap ..

/-- The pending steps a view looks at. -/
def pendingOf (p : Act → Bool) (c : Config) : Multiset Act := watched p c.work

lemma mem_pendingOf {c : Config} {a : Act} : a ∈ pendingOf p c ↔ a ∈ c.work ∧ p a = true := by
  simp [pendingOf, watched]

lemma pendingOf_launch (c : Config) (st : State) (o : Option PeerId) (todo : List Act) :
    pendingOf p (c.launch st o todo) = ↑(watched p todo) + pendingOf p c := by
  rw [pendingOf, Pool.work_launch, watched_append, ← Multiset.coe_add, add_comm]
  rfl

lemma pendingOf_run {c c' : Config} {a : Act} {W next spawned : List Act}
    (hw : c.work.Perm (a :: W)) (hw' : c'.work.Perm (next ++ spawned ++ W))
    (hs : watched p spawned = []) :
    pendingOf p c = ↑(watched p [a]) + ↑(watched p W) ∧
      pendingOf p c' = ↑(watched p next) + ↑(watched p W) := by
  constructor
  · rw [pendingOf, Multiset.coe_add, ← watched_append]
    exact Multiset.coe_eq_coe.mpr (hw.filter _)
  · have hperm := hw'.filter p
    rw [pendingOf, Multiset.coe_add, Multiset.coe_eq_coe]
    simpa [watched, List.filter_append, show spawned.filter p = [] from hs] using hperm

end Watched

lemma step_event {c c' : Config} {e : Event} (h : step c (.event e) = some c') :
    ∃ st o todo, e.begin c.st = some (st, o, todo) ∧ c' = c.launch st o todo ∧
      ∀ id, o = some id → c.Free (some id) := by
  simp only [step] at h
  split at h
  · cases h
  · next st todo hb => exact ⟨st, none, todo, hb, (Option.some.inj h).symm, by simp⟩
  · next st id todo hb =>
    split at h
    · next hf => exact ⟨st, some id, todo, hb, (Option.some.inj h).symm, by rintro _ ⟨⟩; exact hf⟩
    · cases h

def init : Config := ⟨.init, []⟩

@[simp] lemma pendingOf_init (p : Act → Bool) : pendingOf p init = 0 := rfl

/-- The step a thread is about to take. -/
def Label.act (c : Config) : Label → Option Act
  | .run i _ => c.head? i
  | .event _ => none

/-- A condition on the steps of threads. -/
def guard (P : Config → Act → Bool) (c : Config) (l : Label) : Prop := ∀ a ∈ l.act c, P c a

instance (P : Config → Act → Bool) (c : Config) (l : Label) : Decidable (guard P c l) :=
  inferInstanceAs (Decidable (∀ a ∈ l.act c, P c a = true))

/-- The states of the runs from the empty room whose steps all meet `G`. -/
abbrev Reach (G : Config → Label → Prop) : Config → Prop := Machine.Reach step G init

/-- Where the run `ls` ends, if it is one. -/
def after (ls : List Label) : Config := (Machine.run step init ls).getD init

lemma run_after {ls ls' : List Label} (h : (Machine.run step init (ls ++ ls')).isSome) :
    Machine.run step (after ls) ls' = some (after (ls ++ ls')) := by
  obtain ⟨c, hc⟩ := Option.isSome_iff_exists.mp h
  rw [after, after, hc]
  rw [Machine.run_append] at hc
  obtain ⟨c', hc', hrun⟩ := Option.bind_eq_some_iff.mp hc
  rw [hc']
  exact hrun

lemma step_after {ls : List Label} {l : Label}
    (h : (Machine.run step init (ls ++ [l])).isSome) :
    step (after ls) l = some (after (ls ++ [l])) := by
  simpa [Machine.run] using run_after h

lemma reach_after_append {G : Config → Label → Prop} {ls ls' : List Label}
    (hm : Machine.Meets step G (after ls) ls') (h : (Machine.run step init (ls ++ ls')).isSome) :
    Machine.Reach step G (after ls) (after (ls ++ ls')) :=
  Machine.Reach.init.of_run hm (run_after h)

lemma reach_after {G : Config → Label → Prop} {ls : List Label}
    (hm : Machine.Meets step G init ls) (h : (Machine.run step init ls).isSome) :
    Reach G (after ls) :=
  @reach_after_append G [] ls hm h

instance (c : Config) (l : Label) : Decidable (Machine.free c l) := .isTrue trivial

end VoiceHub.Sfu.Room
