import Mathlib
import VoiceHub.Lib.Machine

/-!
The microphone of a page: joining and leaving, reconnecting, swapping the microphone, and being
muted or deafened meanwhile.

A graph stands for its processed track, which is the one that is sent. What is left out: the nodes
of the graph and whether its track has been stopped, the rest of the roster, the reconnect timer
(an attempt may start at any time) and storage that refuses to save.
-/

namespace VoiceHub.Client.Session

open Function

/-! ### What a page holds -/

/-- The part of the store that is kept across reloads. -/
structure Settings where
  selfMuted : Bool
  deafened : Bool
  preDeafenSelfMuted : Bool
  deriving DecidableEq

structure Participant where
  localMuted : Bool
  localVolume : ℕ
  deriving DecidableEq

/-- A participant nothing is known of yet. -/
def Participant.new : Participant := ⟨false, 100⟩

/-- Gains are in ten-thousandths. -/
structure Remote where
  outputVolume : ℕ
  participants : ℕ → Option Participant
  audio : ℕ → Option ℕ

inductive JoinState
  | idle
  | joining
  | joined
  deriving DecidableEq

inductive Phase
  /-- the socket is not open yet -/
  | opening
  /-- `hello` has been sent -/
  | greeting
  /-- welcomed, the screen share is being resumed -/
  | resuming
  | up
  deriving DecidableEq

def Phase.welcomed : Phase → Bool
  | .opening | .greeting => false
  | .resuming | .up => true

/-- A socket and the peer connection set up with it. -/
structure Conn where
  /-- The graph whose stream it was set up with. -/
  graph : ℕ
  /-- The graph whose track its audio sender sends. -/
  sender : ℕ
  phase : Phase
  ws : Bool
  /-- What the server has last been told; a peer starts neither muted nor deafened. -/
  told : Bool × Bool
  /-- Ghost: the mute state the track it sends was set for before the welcome, if it was. -/
  asked : Option Bool
  deriving DecidableEq

/-- `sfu.getClient()`, and the connection it has last set up. -/
structure SFUClient where
  id : ℕ
  conn : ℕ
  deriving DecidableEq

/-- The `handleJoin` or `rotateRoomKeepingMic` under way. -/
inductive Call
  /-- in `prepareLocalAudio` -/
  | preparing
  | connecting (n : ℕ)
  deriving DecidableEq

/-- What a reconnect attempt waits for. -/
inductive Wait
  /-- `connectSfu` -/
  | connect
  /-- `reconnect` of a client that shares its screen -/
  | reconnect (id graph : ℕ)
  /-- `resumeScreenShare` -/
  | resume (id graph : ℕ)
  deriving DecidableEq

/-- A `rebuildLocalAudio` or `switchMicDevice` under way, with the `selfMuted` it was given. -/
inductive Swap
  | building (selfMuted : Bool)
  /-- in `replaceTrack` on the sender of connection `n` -/
  | replacing (n : ℕ) (selfMuted : Bool)
  deriving DecidableEq

/-- Graphs and connections are numbered; a swap has the number of the graph it makes. -/
structure Voice where
  joinState : JoinState
  /-- `micGraphRef` -/
  micGraph : Option ℕ
  /-- `enabled` of the track of each graph. -/
  enabled : ℕ → Bool
  graphs : ℕ
  swaps : ℕ → Option Swap
  conns : ℕ → Option Conn
  next : ℕ
  client : Option SFUClient
  /-- `peerIdRef`: the connection that gave it. -/
  peerId : Option ℕ
  call : Option Call
  waits : ℕ → Option Wait

structure Page where
  store : Settings
  /-- What `localStorage` keeps. -/
  saved : Settings
  lastToggleAt : ℕ
  remote : Remote
  voice : Voice

/-! ### What is heard -/

namespace Remote

def new : Remote := ⟨100, fun _ => none, fun _ => none⟩

/-- `applyParticipantGain` -/
def gain (r : Remote) (deafened : Bool) (q : Option Participant) : ℕ :=
  if deafened || (q.map (·.localMuted)).getD false then 0
  else r.outputVolume * (q.map (·.localVolume)).getD 100

def applyAllRemoteGains (r : Remote) (deafened : Bool) : Remote :=
  { r with audio := fun id => (r.audio id).map fun _ => r.gain deafened (r.participants id) }

/-- `cleanupAllRemote` and `clearParticipants`. -/
def clear (r : Remote) : Remote :=
  { r with audio := fun _ => none, participants := fun _ => none }

/-- `onTrack` -/
def attach (r : Remote) (id : ℕ) : Remote :=
  { r with
    audio := update r.audio id (some 0)
    participants := update r.participants id (some ((r.participants id).getD .new)) }

def detach (r : Remote) (id : ℕ) : Remote := { r with audio := update r.audio id none }

/-- `upsertRemotePeer`, with the volume that is stored for the peer. -/
def upsert (r : Remote) (id : ℕ) (stored : Option ℕ) : Remote :=
  let q := (r.participants id).getD .new
  { r with participants :=
      update r.participants id (some { q with localVolume := stored.getD q.localVolume }) }

def remove (r : Remote) (id : ℕ) : Remote :=
  { r with participants := update r.participants id none }

def updateParticipant (r : Remote) (id : ℕ) (f : Participant → Participant) : Remote :=
  { r with participants := update r.participants id ((r.participants id).map f) }

def setOutputVolume (r : Remote) (volume : ℕ) : Remote := { r with outputVolume := volume }

end Remote

/-! ### What is sent -/

namespace Conn

/-- `set-state`; a socket that is not open sends nothing. -/
def send (c : Conn) (selfMuted deafened : Bool) : Conn :=
  if c.ws ∧ c.phase ≠ .opening then { c with told := (selfMuted, deafened) } else c

/-- The connection is up, and the server is told what a new peer is not taken to be. -/
def up (c : Conn) (s : Settings) : Conn :=
  let c := { c with phase := .up }
  if s.selfMuted || s.deafened then c.send s.selfMuted s.deafened else c

end Conn

namespace Voice

def new : Voice where
  joinState := .idle
  micGraph := none
  enabled := fun _ => true
  graphs := 0
  swaps := fun _ => none
  conns := fun _ => none
  next := 0
  client := none
  peerId := none
  call := none
  waits := fun _ => none

/-- The connection the client has open. -/
def conn? (v : Voice) : Option ℕ :=
  v.client.bind fun c => if (v.conns c.conn).isSome then some c.conn else none

def modifyConn (v : Voice) (n : ℕ) (f : Conn → Conn) : Voice :=
  { v with conns := update v.conns n ((v.conns n).map f) }

def closeConn (v : Voice) (n : ℕ) : Voice := { v with conns := update v.conns n none }

def setWait (v : Voice) (n : ℕ) (w : Option Wait) : Voice :=
  { v with waits := update v.waits n w }

def setMicEnabled (v : Voice) (enabled : Bool) : Voice :=
  match v.micGraph with
  | none => v
  | some g => { v with enabled := update v.enabled g enabled }

def sendSetState (v : Voice) (selfMuted deafened : Bool) : Voice :=
  match v.client with
  | none => v
  | some c => v.modifyConn c.conn (·.send selfMuted deafened)

/-- What both toggles do when the page has a peer id. -/
def announce (v : Voice) (selfMuted deafened : Bool) : Voice :=
  if v.peerId.isSome then (v.setMicEnabled (!selfMuted)).sendSetState selfMuted deafened else v

def disconnect (v : Voice) : Voice :=
  match v.client with
  | none => v
  | some c => { v.closeConn c.conn with client := none }

/-- `setupAudioAndWS` of client `id`. -/
def setup (v : Voice) (id graph : ℕ) (asked : Option Bool) : Voice :=
  { v with
    conns := update v.conns v.next (some ⟨graph, graph, .opening, true, (false, false), asked⟩)
    client := some ⟨id, v.next⟩
    next := v.next + 1 }

/-- `connectSfu`, up to its first `await`. -/
def connectSfu (v : Voice) (graph : ℕ) : Voice := v.setup v.next graph none

/-- The rest of `connectSfu`. -/
def connected (v : Voice) (n graph : ℕ) (s : Settings) : Voice :=
  { v with enabled := update v.enabled graph (!s.selfMuted) }.modifyConn n (·.up s)

def leave (v : Voice) : Voice :=
  { v.disconnect with micGraph := none, peerId := none, joinState := .idle }

/-- The client makes way for a new one. -/
def drop (v : Voice) : Voice := { v.disconnect with peerId := none }

def coldReconnect (v : Voice) (graph : ℕ) : Voice :=
  (v.drop.connectSfu graph).setWait v.next (some .connect)

/-- `reconnect` of the client that has connection `n`. -/
def reconnect (v : Voice) (id n graph : ℕ) (asked : Option Bool) : Voice :=
  ({ v.closeConn n with peerId := none }.setup id graph asked).setWait v.next
    (some (.reconnect id graph))

/-- The client that `onAttempt` reconnects because it shares its screen. One that has never been
welcomed shares nothing. -/
def attempt (v : Voice) (sharing : Bool) (graph : ℕ) (s : Settings) : Option Voice :=
  if sharing then
    match v.client with
    | none => none
    | some ⟨id, n⟩ =>
      match v.conns n with
      | none => none
      | some c =>
        if c.phase.welcomed then some (v.reconnect id n graph (some s.selfMuted))
        else
          match v.waits n with
          | some (.reconnect ..) => some (v.reconnect id n graph c.asked)
          | _ => none
  else some (v.coldReconnect graph)

def rotateRoomKeepingMic (v : Voice) (mic : ℕ) : Voice :=
  { v.drop.connectSfu mic with joinState := .joining, call := some (.connecting v.next) }

/-- The graph of `prepareLocalAudio`. -/
def prepared (v : Voice) : Voice :=
  let g := v.graphs
  let v := { v with micGraph := some g, enabled := update v.enabled g true, graphs := g + 1 }
  { v.connectSfu g with call := some (.connecting v.next) }

/-- `onWelcome`, and what waited for it. -/
def welcome (v : Voice) (n : ℕ) (c : Conn) (s : Settings) : Option Voice :=
  let v := { v with peerId := some n }
  match v.waits n with
  | some .connect => some ((v.connected n c.graph s).setWait n none)
  | some (.reconnect id graph) =>
    some ((v.modifyConn n ({ · with phase := .resuming })).setWait n (some (.resume id graph)))
  | some (.resume ..) => none
  | none =>
    if v.call = some (.connecting n) then
      some { v.connected n c.graph s with joinState := .joined, call := none }
    else none

/-- `resumeScreenShare` of client `id` is done; by then the client may have another connection. -/
def resumed (v : Voice) (id n : ℕ) (s : Settings) : Voice :=
  let v := v.setWait n none
  if (v.conns n).isSome then v.modifyConn n (·.up s)
  else
    match v.client with
    | none => v
    | some c =>
      if c.id = id ∧ (s.selfMuted || s.deafened) then
        v.modifyConn c.conn (·.send s.selfMuted s.deafened)
      else v

def switchMic (v : Voice) (s : Settings) : Voice :=
  { v with
    swaps := update v.swaps v.graphs (some (.building s.selfMuted))
    graphs := v.graphs + 1 }

/-- The new graph is there: its track takes the place of the old one. -/
def built (v : Voice) (k : ℕ) (selfMuted : Bool) : Voice :=
  let v := { v with enabled := update v.enabled k (!selfMuted) }
  match v.conn? with
  | some n => { v with swaps := update v.swaps k (some (.replacing n selfMuted)) }
  | none => { v with swaps := update v.swaps k none, micGraph := some k }

/-- `replaceTrack` resolves. -/
def replaced (v : Voice) (k n : ℕ) (selfMuted : Bool) : Voice :=
  { v.modifyConn n fun c =>
      { c with sender := k, asked := if c.phase.welcomed then c.asked else some selfMuted } with
    swaps := update v.swaps k none
    micGraph := some k }

end Voice

/-! ### A step -/

inductive Event
  | reload
  | toggleSelfMute
  /-- a hotkey, from the window or from the desktop -/
  | triggerToggleSelfMute (now : ℕ)
  | toggleDeafen
  | join
  | prepared
  | unprepared
  | opened (n : ℕ)
  | welcome (n : ℕ)
  /-- `connect` or `reconnect` rejects: an error or no welcome in time -/
  | refused (n : ℕ)
  /-- the socket closes -/
  | lost (n : ℕ)
  | attempt (sharing : Bool)
  | resumed (n : ℕ)
  | unresumed (n : ℕ)
  | leave
  | switchRoom
  /-- `switchEngine` or `switchMicDevice` -/
  | switchMic
  /-- the graph of a swap is built -/
  | built (k : ℕ)
  /-- `replaceTrack` resolves -/
  | replaced (k : ℕ)
  | swapFailed (k : ℕ)
  | attach (id : ℕ)
  | detach (id : ℕ)
  /-- with the volume saved for the peer -/
  | upsert (id : ℕ) (stored : Option ℕ)
  | remove (id : ℕ)
  | localMute (id : ℕ)
  | localVolume (id : ℕ) (volume : ℕ)
  | outputVolume (volume : ℕ)
  deriving DecidableEq

def toggleCooldownMs : ℕ := 60

namespace Page

/-- A page as it is loaded. -/
def load (saved : Settings) : Page := ⟨saved, saved, 0, .new, .new⟩

/-- The first visit. -/
def new : Page := load ⟨false, false, false⟩

def setSelfMuted (p : Page) (v : Bool) : Page :=
  { p with store := { p.store with selfMuted := v }, saved := { p.saved with selfMuted := v } }

def setDeafened (p : Page) (v : Bool) : Page :=
  { p with store := { p.store with deafened := v }, saved := { p.saved with deafened := v } }

def enterDeafen (p : Page) : Page :=
  { p with store := ⟨true, true, p.store.selfMuted⟩, saved := ⟨true, true, p.store.selfMuted⟩ }

def applyAllRemoteGains (p : Page) : Page :=
  { p with remote := p.remote.applyAllRemoteGains p.store.deafened }

def announce (p : Page) (selfMuted deafened : Bool) : Page :=
  { p with voice := p.voice.announce selfMuted deafened }

def handleToggleSelfMute (p : Page) : Page :=
  let nextMuted := !p.store.selfMuted
  let p := if p.store.deafened then (p.setDeafened false).applyAllRemoteGains else p
  (p.setSelfMuted nextMuted).announce nextMuted false

def triggerToggleSelfMute (p : Page) (now : ℕ) : Page :=
  if now < p.lastToggleAt + toggleCooldownMs then p
  else { p with lastToggleAt := now }.handleToggleSelfMute

def handleToggleDeafen (p : Page) : Page :=
  if p.store.deafened then
    let muted := p.store.preDeafenSelfMuted
    (((p.setDeafened false).setSelfMuted muted).announce muted false).applyAllRemoteGains
  else (p.enterDeafen.announce true true).applyAllRemoteGains

def handleLeave (p : Page) : Page :=
  { p with remote := p.remote.clear, voice := p.voice.leave }

/-- `onAttempt` -/
def attempt (p : Page) (sharing : Bool) : Option Page :=
  match p.voice.micGraph with
  | none => some p
  | some g =>
    (p.voice.attempt sharing g p.store).map fun v =>
      { p with remote := p.remote.clear, voice := v }

def switchRoom (p : Page) : Page :=
  match p.voice.micGraph with
  | some mic => { p with remote := p.remote.clear, voice := p.voice.rotateRoomKeepingMic mic }
  | none =>
    { p with
      remote := p.remote.clear
      voice := { p.voice.leave with joinState := .joining, call := some .preparing } }

/-- The rejection of what waits for the welcome of connection `n`. -/
def refused (p : Page) (n : ℕ) : Option Page :=
  let v := p.voice.closeConn n
  if v.call = some (.connecting n) then some { p with voice := { v with call := none } }.handleLeave
  else
    match v.waits n with
    | some .connect => some { p with voice := v.setWait n none }
    | some (.reconnect _ graph) =>
      some { p with remote := p.remote.clear, voice := (v.setWait n none).coldReconnect graph }
    | _ => none

/-- The rejection of a `resumeScreenShare`. -/
def unresumed (p : Page) (n graph : ℕ) : Page :=
  { p with remote := p.remote.clear, voice := (p.voice.setWait n none).coldReconnect graph }

def step (p : Page) : Event → Option Page
  | .reload => some (load p.saved)
  | .toggleSelfMute => some p.handleToggleSelfMute
  | .triggerToggleSelfMute now => some (p.triggerToggleSelfMute now)
  | .toggleDeafen => some p.handleToggleDeafen
  | .join =>
    if p.voice.joinState = .idle then
      some { p with voice := { p.voice with joinState := .joining, call := some .preparing } }
    else none
  | .prepared =>
    if p.voice.call = some .preparing then some { p with voice := p.voice.prepared } else none
  | .unprepared =>
    if p.voice.call = some .preparing then
      some { p with voice := { p.voice with call := none } }.handleLeave
    else none
  | .opened n =>
    match p.voice.conns n with
    | none => none
    | some c =>
      if c.ws ∧ c.phase = .opening then
        some { p with voice := p.voice.modifyConn n ({ · with phase := .greeting }) }
      else none
  | .welcome n =>
    match p.voice.conns n with
    | none => none
    | some c =>
      if c.ws ∧ c.phase = .greeting then
        (p.voice.welcome n c p.store).map fun v =>
          { p with remote := { p.remote with participants := fun _ => none }, voice := v }
      else none
  | .refused n => p.refused n
  | .lost n =>
    if (p.voice.conns n).isSome then
      some { p with voice := p.voice.modifyConn n ({ · with ws := false }) }
    else none
  | .attempt sharing => p.attempt sharing
  | .resumed n =>
    match p.voice.waits n with
    | some (.resume id _) => some { p with voice := p.voice.resumed id n p.store }
    | _ => none
  | .unresumed n =>
    match p.voice.waits n with
    | some (.resume _ graph) => some (p.unresumed n graph)
    | _ => none
  | .leave => if p.voice.joinState = .joined then some p.handleLeave else none
  | .switchRoom => if p.voice.joinState = .joined then some p.switchRoom else none
  | .switchMic =>
    if p.voice.joinState = .joined then some { p with voice := p.voice.switchMic p.store }
    else none
  | .built k =>
    match p.voice.swaps k with
    | some (.building muted) => some { p with voice := p.voice.built k muted }
    | _ => none
  | .replaced k =>
    match p.voice.swaps k with
    | some (.replacing n muted) =>
      if (p.voice.conns n).isSome then some { p with voice := p.voice.replaced k n muted } else none
    | _ => none
  | .swapFailed k =>
    if (p.voice.swaps k).isSome then
      some { p with voice := { p.voice with swaps := update p.voice.swaps k none } }
    else none
  | .attach id => some { p with remote := p.remote.attach id }.applyAllRemoteGains
  | .detach id => some { p with remote := p.remote.detach id }
  | .upsert id stored => some { p with remote := p.remote.upsert id stored }
  | .remove id => some { p with remote := p.remote.remove id }
  | .localMute id =>
    let r := p.remote.updateParticipant id fun q => { q with localMuted := !q.localMuted }
    some { p with remote := r }.applyAllRemoteGains
  | .localVolume id volume =>
    let r := p.remote.updateParticipant id ({ · with localVolume := volume })
    some { p with remote := r }.applyAllRemoteGains
  | .outputVolume volume =>
    some { p with remote := p.remote.setOutputVolume volume }.applyAllRemoteGains

end Page

end VoiceHub.Client.Session
