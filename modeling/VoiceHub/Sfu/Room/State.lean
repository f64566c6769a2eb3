import Mathlib
import VoiceHub.Lib.HashMap
import VoiceHub.Sfu.Protocol

/-!
The state of a room: what `Room::state` guards, the screen sessions, and what hangs off
them.

`Arc`s are identities into a heap: a session is known by the number it was allocated
under, a peer connection by another, a grace timer by its cancellation token. Peer ids and
resume tokens are random in the source; here no two of them are ever equal.
-/

namespace VoiceHub.Sfu.Room

open VoiceHub.Lib

abbrev SessionId := ℕ
abbrev PcId := ℕ
abbrev TimerId := ℕ

/-- The part of a peer that never changes. -/
structure Peer where
  id : PeerId
  clientId : String
  chatOnly : Bool
  deriving DecidableEq

/-- A peer's outbound channel. `log` is everything it ever took in, oldest first; `queued`
of these still wait for the writer. -/
structure Outbox (μ : Type) where
  log : List μ
  queued : ℕ
  cancelled : Bool
  overflowed : Bool

def PEER_OUT_BUF_LEN : ℕ := 1024

namespace Outbox

variable {μ : Type} (o : Outbox μ)

/-- `Peer::send`. -/
def send (m : μ) : Outbox μ :=
  if o.cancelled then o
  else if o.queued < PEER_OUT_BUF_LEN then { o with log := o.log ++ [m], queued := o.queued + 1 }
  else { o with cancelled := true, overflowed := true }

/-- The writer takes the oldest waiting message. -/
def drain : Outbox μ := { o with queued := o.queued - 1 }

/-- The queue takes a message in: `Peer::send` neither drops it nor overflows. -/
def takes : Bool := !o.cancelled && decide (o.queued < PEER_OUT_BUF_LEN)

lemma log_send (m : μ) : (o.send m).log = if o.takes then o.log ++ [m] else o.log := by
  unfold send
  split_ifs with hc hq ht ht ht <;> simp_all [takes]
  omega

end Outbox

/-- A viewer's subscription to a session, by its subscriber PC. -/
structure ScreenSub where
  peerId : PeerId
  session : SessionId

structure Entry where
  peer : Peer
  displayName : String
  selfMuted : Bool
  deafened : Bool
  screenSession : Option SessionId
  screenSubs : HashMap PeerId PcId

/-- A session with its `SessionInner`. -/
structure ScreenSession where
  publisherId : PeerId
  token : Token
  hasSystemAudio : Bool
  videoCodec : ScreenVideoCodec
  mode : ScreenShareMode
  publisherPc : PcId
  firstVideo : Bool
  subscribers : HashMap PeerId PcId
  grace : Option TimerId
  closed : Bool

instance : Inhabited ScreenSession :=
  ⟨⟨"", 0, false, .vp9, .sharp, 0, false, ∅, none, true⟩⟩

/-! ### The peer map -/

/-- `State.peers`: every entry is stored under its own peer's id. -/
structure Peers where
  map : HashMap PeerId Entry
  keyed : ∀ {id e}, map.lookup id = some e → e.peer.id = id

namespace Peers

variable (ps : Peers) {id k : PeerId} {e : Entry} {f : Entry → Entry}

def empty : Peers := ⟨∅, by simp⟩

def get (id : PeerId) : Option Entry := ps.map.lookup id

def values : List Entry := HashMap.values ps.map

def insert (e : Entry) : Peers where
  map := AList.insert e.peer.id e ps.map
  keyed := by
    intro id e' h
    rw [HashMap.lookup_insert] at h
    split at h
    · next hid => cases h; exact hid.symm
    · exact ps.keyed h

def remove (id : PeerId) : Peers where
  map := AList.erase id ps.map
  keyed := by
    intro k e h
    rw [HashMap.lookup_erase] at h
    split at h
    · cases h
    · exact ps.keyed h

/-- `get_mut(id)`: the peer itself stays. -/
def modify (id : PeerId) (f : Entry → Entry) : Peers :=
  match ps.get id with
  | none => ps
  | some e => ps.insert { f e with peer := e.peer }

@[simp] lemma get_empty : empty.get id = none := rfl

lemma get_insert : (ps.insert e).get k = if k = e.peer.id then some e else ps.get k :=
  HashMap.lookup_insert ..

lemma get_remove : (ps.remove id).get k = if k = id then none else ps.get k :=
  HashMap.lookup_erase ..

lemma id_of_get (h : ps.get id = some e) : e.peer.id = id := ps.keyed h

lemma get_modify : (ps.modify id f).get k =
    if k = id then (ps.get id).map (fun e => { f e with peer := e.peer }) else ps.get k := by
  unfold modify
  split
  · next h => split <;> simp_all
  · next e h => rw [get_insert, ps.id_of_get h, h]; rfl

lemma get_modify_isSome : ((ps.modify id f).get k).isSome = (ps.get k).isSome := by
  rw [get_modify]
  split
  · next h => subst h; simp
  · rfl

lemma mem_values : e ∈ ps.values ↔ ps.get e.peer.id = some e := by
  rw [values, HashMap.mem_values]
  exact ⟨fun ⟨k, h⟩ => by rw [ps.id_of_get h]; exact h, fun h => ⟨_, h⟩⟩

lemma nodup_ids : (ps.values.map fun e => e.peer.id).Nodup := by
  have h : ps.values.map (fun e => e.peer.id) = ps.map.keys := by
    rw [values, HashMap.values, List.map_map, AList.keys, List.keys]
    apply List.map_congr_left
    rintro ⟨k, e⟩ he
    exact ps.keyed (AList.mem_lookup_iff.mpr he)
  rw [h]
  exact ps.map.keys_nodup

end Peers

/-! ### The room -/

structure State where
  peers : Peers
  /-- Live screen sessions by resume token. -/
  sessionsByToken : HashMap Token SessionId
  /-- The heap of sessions, and of subscriptions by subscriber PC. -/
  sessions : SessionId → ScreenSession
  subs : PcId → Option ScreenSub
  /-- The PCs whose `closed` flag is set. -/
  pcClosed : PcId → Bool
  /-- The PCs whose `dispatch` lock is held, by an event in delivery. -/
  dispatch : PcId → Bool
  /-- Spawned grace tasks that still wait: their timer, and the session it ends. -/
  timers : List (TimerId × SessionId)
  /-- The cancellation tokens that are cancelled. -/
  cancelled : TimerId → Bool
  outbox : PeerId → Outbox Msg
  /-- The next free identity; `0` is nobody's. -/
  next : ℕ
  /-- Every peer that ever joined. -/
  seen : PeerId → Option Peer
  /-- How many messages were computed so far. -/
  clock : ℕ
  /-- How long a publisher's log was when it last took ownership of a session. -/
  tookAt : PeerId → ℕ

def State.init : State where
  peers := .empty
  sessionsByToken := ∅
  sessions := fun _ => default
  subs := fun _ => none
  pcClosed := fun _ => false
  dispatch := fun _ => false
  timers := []
  cancelled := fun _ => false
  outbox := fun _ => ⟨[], 0, false, false⟩
  next := 1
  seen := fun _ => none
  clock := 0
  tookAt := fun _ => 0

namespace State

variable (st : State)

/-- `Entry::info`. -/
def info (e : Entry) : PeerInfo where
  id := e.peer.id
  displayName := e.displayName
  clientId := e.peer.clientId
  selfMuted := e.selfMuted
  deafened := e.deafened
  chatOnly := e.peer.chatOnly
  screenSharing := e.screenSession.isSome
  screenSharingHasAudio := (e.screenSession.map fun s => (st.sessions s).hasSystemAudio).getD false
  screenSharingVideoCodec := e.screenSession.map fun s => (st.sessions s).videoCodec

/-- `Room::others`. -/
def others (ord : Order) (exclude : PeerId) : List PeerId :=
  ((ord.list st.peers.values).filter fun e => e.peer.id ≠ exclude).map fun e => e.peer.id

/-- `Room::all`. -/
def all (ord : Order) : List PeerId := (ord.list st.peers.values).map fun e => e.peer.id

/-- The session a connected peer owns. -/
def owned (id : PeerId) : Option SessionId := (st.peers.get id).bind (·.screenSession)

/-- A connected peer's subscription to a publisher. -/
def subOf (v p : PeerId) : Option PcId := (st.peers.get v).bind (·.screenSubs.lookup p)

/-- A session's subscription of a viewer. -/
def subscriber (s : SessionId) (v : PeerId) : Option PcId := (st.sessions s).subscribers.lookup v

def setSession (s : SessionId) (f : ScreenSession → ScreenSession) : State :=
  { st with sessions := Function.update st.sessions s (f (st.sessions s)) }

lemma mem_all {ord : Order} {id : PeerId} : id ∈ st.all ord ↔ (st.peers.get id).isSome := by
  simp only [all, List.mem_map, Order.mem_list, st.peers.mem_values]
  constructor
  · rintro ⟨e, he, rfl⟩
    simp [he]
  · intro h
    obtain ⟨e, he⟩ := Option.isSome_iff_exists.mp h
    exact ⟨e, by rw [st.peers.id_of_get he]; exact he, st.peers.id_of_get he⟩

lemma mem_others {ord : Order} {x id : PeerId} :
    id ∈ st.others ord x ↔ (st.peers.get id).isSome ∧ id ≠ x := by
  rw [← @mem_all st ord]
  simp only [others, all, List.mem_map, List.mem_filter, decide_eq_true_eq]
  constructor
  · rintro ⟨e, ⟨he, hx⟩, rfl⟩
    exact ⟨⟨e, he, rfl⟩, hx⟩
  · rintro ⟨⟨e, he, rfl⟩, hx⟩
    exact ⟨e, ⟨he, hx⟩, rfl⟩

end State

end VoiceHub.Sfu.Room
