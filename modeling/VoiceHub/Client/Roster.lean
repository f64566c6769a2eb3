import Mathlib
import VoiceHub.Sfu.Protocol

/-!
The participants of a room as a client keeps them, and what a message tells of each.
-/

namespace VoiceHub.Client

open VoiceHub.Sfu (PeerId PeerInfo Msg)

structure Participant where
  display : String
  clientId : String
  remoteMuted : Bool
  remoteDeafened : Bool
  deriving DecidableEq

abbrev Participants := PeerId → Option Participant

/-- `upsertRemotePeer`. The server leaves out an empty name. -/
def remotePeer (p : PeerInfo) : Participant where
  display := if p.displayName = "" then "peer-" ++ p.id else p.displayName
  clientId := p.clientId
  remoteMuted := p.selfMuted
  remoteDeafened := p.deafened

namespace Participants

variable (ps : Participants)

/-- A peer arriving with a `clientId` already held by another entry replaces that entry. -/
def upsertParticipant (id : PeerId) (x : Participant) : Participants := fun k =>
  if k = id then some x
  else if x.clientId ≠ "" then (ps k).filter (·.clientId ≠ x.clientId)
  else ps k

def removeParticipant (id : PeerId) : Participants := Function.update ps id none

/-- Only an entry that is there. -/
def updateParticipant (id : PeerId) (patch : Participant → Participant) : Participants :=
  Function.update ps id ((ps id).map patch)

def addVoicePeer (p : PeerInfo) : Participants := ps.upsertParticipant p.id (remotePeer p)

/-- What `peer-info` changes: what it does not leave out. -/
def patchInfo (p : PeerInfo) (x : Participant) : Participant :=
  { x with
    display := if p.displayName = "" then x.display else p.displayName
    clientId := if p.clientId = "" then x.clientId else p.clientId }

/-- The handlers of `buildSFUHandlers`; `self` is what the client enters for itself. -/
def onMsg (self : Participant) : Msg → Participants
  | .welcome id peers => peers.foldl addVoicePeer (upsertParticipant (fun _ => none) id self)
  | .peerJoined p => ps.addVoicePeer p
  | .peerLeft id => ps.removeParticipant id
  | .peerInfo p => ps.updateParticipant p.id (patchInfo p)
  | .peerState id selfMuted deafened => ps.updateParticipant id fun x =>
    { x with remoteMuted := selfMuted, remoteDeafened := deafened }
  | _ => ps

/-- The participants after a queue's messages. -/
def ofLog (self : Participant) (log : List Msg) : Participants :=
  log.foldl (onMsg · self) fun _ => none

end Participants

/-! ### What a message tells -/

inductive Aspect | here | name | flags
  deriving DecidableEq

inductive Word
  | absent
  | present
  | name (displayName : String)
  | flags (selfMuted deafened : Bool)
  deriving DecidableEq

/-- What it is about. -/
def Word.aspect : Word → Aspect
  | absent | present => .here
  | name _ => .name
  | flags _ _ => .flags

/-- What an entry of the roster tells of its peer. -/
def Word.of (p : PeerInfo) : Aspect → Word
  | .here => .present
  | .name => .name p.displayName
  | .flags => .flags p.selfMuted p.deafened

/-- A participant is as the word has it. Any name will do for a peer without one. -/
def Word.Shown : Word → Option Participant → Prop
  | absent, x => x = none
  | present, x => x.isSome
  | name displayName, x => displayName ≠ "" → ∀ y ∈ x, y.display = displayName
  | flags selfMuted deafened, x =>
    ∀ y ∈ x, y.remoteMuted = selfMuted ∧ y.remoteDeafened = deafened

/-- What a message tells, where `clientOf` has every peer's client id. Who joins replaces the
others of its client. -/
def tells (clientOf : PeerId → Option String) : Msg → PeerId × Aspect → Option Word
  | .welcome _ peers, (k, a) => some ((peers.find? (·.id = k)).elim .absent (Word.of · a))
  | .peerJoined p, (k, a) =>
    if k = p.id then some (.of p a)
    else if p.clientId ≠ "" ∧ clientOf k = some p.clientId ∧ a = .here then some .absent
    else none
  | .peerLeft id, (k, a) => if k = id ∧ a = .here then some .absent else none
  | .peerInfo p, (k, a) => if k = p.id ∧ a = .name then some (.of p a) else none
  | .peerState id selfMuted deafened, (k, a) =>
    if k = id ∧ a = .flags then some (.flags selfMuted deafened) else none
  | _, _ => none

/-- A message to `v`: a welcome is its own, the client ids are those of the peers, and two peers
of a welcome have none in common. -/
def Fits (clientOf : PeerId → Option String) (v : PeerId) : Msg → Prop
  | .welcome id peers => id = v ∧ (∀ p ∈ peers, clientOf p.id = some p.clientId) ∧
    peers.Pairwise fun p q => p.id ≠ q.id ∧ (q.clientId ≠ "" → p.clientId ≠ q.clientId)
  | .peerJoined p | .peerInfo p => clientOf p.id = some p.clientId
  | _ => True

variable {clientOf : PeerId → Option String} {ps : Participants} {self : Participant}
  {k v : PeerId} {a : Aspect} {w : Word} {m : Msg}

/-- The client ids a client has for the others are right. -/
def Participants.Known (clientOf : PeerId → Option String) (v : PeerId) (ps : Participants) : Prop :=
  ∀ k ≠ v, ∀ x ∈ ps k, clientOf k = some x.clientId

lemma shown_remotePeer (p : PeerInfo) (a : Aspect) : (Word.of p a).Shown (some (remotePeer p)) := by
  cases a with
  | here => rfl
  | name =>
    intro hname y hy
    obtain rfl := Option.some.inj hy
    exact if_neg hname
  | flags =>
    intro y hy
    obtain rfl := Option.some.inj hy
    exact ⟨rfl, rfl⟩

namespace Participants

lemma addVoicePeer_apply (ps : Participants) (p : PeerInfo) (k : PeerId) :
    ps.addVoicePeer p k = if k = p.id then some (remotePeer p)
      else if p.clientId ≠ "" then (ps k).filter (·.clientId ≠ p.clientId) else ps k := rfl

lemma mem_addVoicePeer {p : PeerInfo} {x : Participant} (hk : k ≠ p.id)
    (hx : x ∈ ps.addVoicePeer p k) : x ∈ ps k := by
  rw [addVoicePeer_apply, if_neg hk] at hx
  split_ifs at hx
  · exact (Option.mem_filter_iff.mp hx).1
  · exact hx

lemma Known.addVoicePeer {p : PeerInfo} (h : ps.Known clientOf v)
    (hp : clientOf p.id = some p.clientId) : (ps.addVoicePeer p).Known clientOf v := by
  intro k hk x hx
  by_cases hkp : k = p.id
  · subst hkp
    rw [addVoicePeer_apply, if_pos rfl] at hx
    obtain rfl := Option.some.inj hx
    exact hp
  · exact h k hk x (mem_addVoicePeer hkp hx)

lemma mem_addVoicePeer_of_apart {p : PeerInfo} {x : Participant} (hk : k ≠ p.id)
    (hc : p.clientId ≠ "" → x.clientId ≠ p.clientId) (hx : x ∈ ps k) :
    x ∈ ps.addVoicePeer p k := by
  rw [addVoicePeer_apply, if_neg hk]
  split_ifs with hp
  · exact Option.mem_filter_iff.mpr ⟨hx, decide_eq_true (hc hp)⟩
  · exact hx

section Fold

variable {peers : List PeerInfo}

lemma mem_foldl_addVoicePeer {x : Participant} (hk : ∀ p ∈ peers, k ≠ p.id)
    (hx : x ∈ peers.foldl addVoicePeer ps k) : x ∈ ps k := by
  induction peers generalizing ps with
  | nil => exact hx
  | cons p peers ih =>
    obtain ⟨hp, hpeers⟩ := List.forall_mem_cons.mp hk
    exact mem_addVoicePeer hp (ih hpeers hx)

lemma mem_foldl_addVoicePeer_of_apart {x : Participant}
    (hk : ∀ p ∈ peers, k ≠ p.id ∧ (p.clientId ≠ "" → x.clientId ≠ p.clientId)) (hx : x ∈ ps k) :
    x ∈ peers.foldl addVoicePeer ps k := by
  induction peers generalizing ps with
  | nil => exact hx
  | cons p peers ih =>
    obtain ⟨hp, hpeers⟩ := List.forall_mem_cons.mp hk
    exact ih hpeers (mem_addVoicePeer_of_apart hp.1 hp.2 hx)

lemma foldl_addVoicePeer_of_mem {p : PeerInfo}
    (h : peers.Pairwise fun p q => p.id ≠ q.id ∧ (q.clientId ≠ "" → p.clientId ≠ q.clientId))
    (hp : p ∈ peers) : peers.foldl addVoicePeer ps p.id = some (remotePeer p) := by
  induction peers generalizing ps with
  | nil => cases hp
  | cons q peers ih =>
    obtain ⟨hq, hpeers⟩ := List.pairwise_cons.mp h
    rcases List.mem_cons.mp hp with rfl | hp
    · have hadd : remotePeer p ∈ ps.addVoicePeer p p.id := by
        rw [addVoicePeer_apply, if_pos rfl]
        rfl
      exact @mem_foldl_addVoicePeer_of_apart _ _ peers (remotePeer p) hq hadd
    · exact ih hpeers hp

lemma Known.foldl_addVoicePeer (h : ps.Known clientOf v)
    (hp : ∀ p ∈ peers, clientOf p.id = some p.clientId) :
    (peers.foldl Participants.addVoicePeer ps).Known clientOf v := by
  induction peers generalizing ps with
  | nil => exact h
  | cons p peers ih =>
    obtain ⟨hp, hpeers⟩ := List.forall_mem_cons.mp hp
    exact ih (h.addVoicePeer hp) hpeers

end Fold

lemma known_self (self : Participant) :
    (upsertParticipant (fun _ => none) v self).Known clientOf v := by
  intro k hk x hx
  rw [upsertParticipant, if_neg hk] at hx
  split_ifs at hx <;> cases hx

lemma Known.updateParticipant {id : PeerId} {patch : Participant → Participant}
    (h : ps.Known clientOf v)
    (hp : ∀ x, clientOf id = some x.clientId → (patch x).clientId = x.clientId) :
    (ps.updateParticipant id patch).Known clientOf v := by
  intro k hk x hx
  rw [Participants.updateParticipant, Function.update_apply] at hx
  split_ifs at hx with hid
  · subst hid
    obtain ⟨y, hy, rfl⟩ := Option.map_eq_some_iff.mp hx
    rw [hp y (h k hk y hy)]
    exact h k hk y hy
  · exact h k hk x hx

/-- **The client keeps the client ids of the others right.** -/
lemma Known.onMsg (h : ps.Known clientOf v) (hm : Fits clientOf v m) :
    (ps.onMsg self m).Known clientOf v := by
  cases m with
  | welcome id peers =>
    rw [hm.1]
    exact (known_self self).foldl_addVoicePeer hm.2.1
  | peerJoined p => exact h.addVoicePeer hm
  | peerLeft id =>
    intro k hk x hx
    rw [Participants.onMsg, removeParticipant, Function.update_apply] at hx
    split_ifs at hx
    · cases hx
    · exact h k hk x hx
  | peerInfo p =>
    refine h.updateParticipant fun x hx => ?_
    have hclient : p.clientId = x.clientId := Option.some.inj (hm.symm.trans hx)
    rw [patchInfo, hclient]
    exact ite_self _
  | peerState id selfMuted deafened => exact h.updateParticipant fun _ _ => rfl
  | _ => exact h

lemma known_ofLog {log : List Msg} (h : ∀ m ∈ log, Fits clientOf v m) :
    (ofLog self log).Known clientOf v := by
  have hfold : ∀ ps : Participants, ps.Known clientOf v →
      (log.foldl (onMsg · self) ps).Known clientOf v := by
    induction log with
    | nil => exact fun ps hps => hps
    | cons m log ih =>
      obtain ⟨hm, hlog⟩ := List.forall_mem_cons.mp h
      exact fun ps hps => ih hlog _ (hps.onMsg hm)
  exact hfold _ fun k _ x hx => by cases hx

/-! ### What a client shows -/

lemma shown_patch {id : PeerId} {patch : Participant → Participant} (h : w.Shown (ps k))
    (hpatch : k = id → ∀ x, w.Shown (some x) → w.Shown (some (patch x))) :
    w.Shown (ps.updateParticipant id patch k) := by
  rw [updateParticipant, Function.update_apply]
  split_ifs with hk
  · subst hk
    cases hps : ps k with
    | none =>
      rw [hps] at h
      exact h
    | some x => exact hpatch rfl x (hps ▸ h)
  · exact h

lemma shown_of_mem {shown shown' : Option Participant} (h : w.Shown shown)
    (hmem : ∀ x ∈ shown', x ∈ shown) (hw : w.aspect ≠ .here) : w.Shown shown' := by
  cases w with
  | absent | present => exact absurd rfl hw
  | name displayName => exact fun hname y hy => h hname y (hmem y hy)
  | flags selfMuted deafened => exact fun y hy => h y (hmem y hy)

lemma addVoicePeer_of_known {p : PeerInfo} (hknown : ps.Known clientOf v) (hk : k ≠ v)
    (hkp : k ≠ p.id) (hc : ¬ (p.clientId ≠ "" ∧ clientOf k = some p.clientId)) :
    ps.addVoicePeer p k = ps k := by
  rw [addVoicePeer_apply, if_neg hkp]
  split_ifs with hp
  · cases hx : ps k with
    | none => rfl
    | some x =>
      have hne : x.clientId ≠ p.clientId := fun heq => hc ⟨hp, heq ▸ hknown k hk x hx⟩
      exact Option.filter_some_pos (decide_eq_true hne)
  · rfl

end Participants

open Participants

/-- **A message shows what it tells** of the others. -/
theorem shown_of_tells (hm : Fits clientOf v m) (hknown : ps.Known clientOf v) (hk : k ≠ v)
    (hw : tells clientOf m (k, a) = some w) : w.Shown (ps.onMsg self m k) := by
  cases m with
  | welcome id peers =>
    obtain ⟨rfl, -, hpeers⟩ := hm
    obtain rfl := Option.some.inj hw
    rw [onMsg]
    cases hfind : peers.find? (·.id = k) with
    -- a peer the welcome does not list is no longer shown
    | none =>
      refine Option.eq_none_iff_forall_not_mem.mpr fun x hx => ?_
      have hself := mem_foldl_addVoicePeer (fun p hp heq => ?_) hx
      · rw [upsertParticipant, if_neg hk] at hself
        split_ifs at hself <;> cases hself
      · exact List.find?_eq_none.mp hfind p hp (decide_eq_true heq.symm)
    | some p =>
      have hid : p.id = k := by simpa using List.find?_some hfind
      subst hid
      rw [foldl_addVoicePeer_of_mem hpeers (List.mem_of_find?_eq_some hfind)]
      exact shown_remotePeer p a
  | peerJoined p =>
    rw [onMsg, addVoicePeer_apply]
    rw [tells] at hw
    split_ifs at hw with hkp hdrop
    · obtain rfl := Option.some.inj hw
      -- the new peer is shown as it is
      rw [if_pos hkp]
      exact shown_remotePeer p a
    · obtain rfl := Option.some.inj hw
      -- another peer of the same client is dropped
      obtain ⟨hp, hclient, -⟩ := hdrop
      rw [if_neg hkp, if_pos hp]
      refine Option.filter_eq_none_iff.mpr fun x hx => ?_
      have heq : x.clientId = p.clientId := Option.some.inj ((hknown k hk x hx).symm.trans hclient)
      simp [heq]
  | peerLeft id =>
    rw [tells] at hw
    split_ifs at hw with hid
    obtain rfl := Option.some.inj hw
    rw [hid.1]
    exact Function.update_self ..
  | peerInfo p =>
    rw [tells] at hw
    split_ifs at hw with hid
    obtain rfl := Option.some.inj hw
    rw [hid.1, hid.2, onMsg, updateParticipant, Function.update_self]
    intro hname y hy
    obtain ⟨x, -, rfl⟩ := Option.map_eq_some_iff.mp hy
    exact if_neg hname
  | peerState id selfMuted deafened =>
    rw [tells] at hw
    split_ifs at hw with hid
    obtain rfl := Option.some.inj hw
    rw [hid.1, onMsg, updateParticipant, Function.update_self]
    intro y hy
    obtain ⟨x, -, rfl⟩ := Option.map_eq_some_iff.mp hy
    exact ⟨rfl, rfl⟩
  | _ => cases hw

/-- **What a message tells nothing of** is shown as before. -/
theorem shown_of_silent (hknown : ps.Known clientOf v) (hk : k ≠ v)
    (hw : tells clientOf m (k, w.aspect) = none) (h : w.Shown (ps k)) :
    w.Shown (ps.onMsg self m k) := by
  cases m with
  | welcome id peers => cases hw
  | peerJoined p =>
    rw [tells] at hw
    split_ifs at hw with hkp hdrop
    by_cases ha : w.aspect = .here
    · rw [onMsg, addVoicePeer_of_known hknown hk hkp fun hc => hdrop ⟨hc.1, hc.2, ha⟩]
      exact h
    · exact shown_of_mem h (fun x hx => mem_addVoicePeer hkp hx) ha
  | peerLeft id =>
    rw [tells] at hw
    split_ifs at hw with hid
    rw [onMsg, removeParticipant, Function.update_apply]
    split_ifs with hkid
    · exact shown_of_mem h (fun x hx => by cases hx) fun ha => hid ⟨hkid, ha⟩
    · exact h
  | peerInfo p =>
    rw [tells] at hw
    split_ifs at hw with hid
    refine shown_patch h fun hkp x hx => ?_
    cases w with
    | name displayName => exact absurd ⟨hkp, rfl⟩ hid
    | absent => cases hx
    | present => rfl
    | flags selfMuted deafened =>
      intro y hy
      obtain rfl := Option.some.inj hy
      exact hx x rfl
  | peerState id selfMuted deafened =>
    rw [tells] at hw
    split_ifs at hw with hid
    refine shown_patch h fun hkp x hx => ?_
    cases w with
    | flags selfMuted deafened => exact absurd ⟨hkp, rfl⟩ hid
    | absent => cases hx
    | present => rfl
    | name displayName =>
      intro hname y hy
      obtain rfl := Option.some.inj hy
      exact hx hname x rfl
  | _ => exact h

/-! ### Screen shares -/

abbrev Shares := PeerId → Bool

namespace Shares

variable (s : Shares)

def upsertShare (publisherId : PeerId) : Shares := Function.update s publisherId true

def removeShare (publisherId : PeerId) : Shares := Function.update s publisherId false

def addVoicePeer (p : PeerInfo) : Shares := if p.screenSharing then s.upsertShare p.id else s

/-- The handlers of `buildSFUHandlers`, but for `screen-share-error`, which may take a share off
too. -/
def onMsg : Msg → Shares
  | .welcome _ peers => peers.foldl addVoicePeer fun _ => false
  | .peerJoined p => s.addVoicePeer p
  | .peerLeft id => s.removeShare id
  | .peerInfo p => if p.screenSharing then s.upsertShare p.id else s.removeShare p.id
  | .screenShareAvailable publisherId _ _ _ => s.upsertShare publisherId
  | .screenShareEnded publisherId => s.removeShare publisherId
  | _ => s

def ofLog (log : List Msg) : Shares := log.foldl onMsg fun _ => false

end Shares

/-- Whether a message has a peer share, if it tells. -/
def tellsShare : Msg → PeerId → Option Bool
  | .welcome _ peers, k => some (peers.any fun p => p.id = k && p.screenSharing)
  | .peerJoined p, k => if k = p.id ∧ p.screenSharing = true then some true else none
  | .peerLeft id, k => if k = id then some false else none
  | .peerInfo p, k => if k = p.id then some p.screenSharing else none
  | .screenShareAvailable publisherId _ _ _, k => if k = publisherId then some true else none
  | .screenShareEnded publisherId, k => if k = publisherId then some false else none
  | _, _ => none

namespace Shares

variable {s : Shares}

lemma addVoicePeer_apply (s : Shares) (p : PeerInfo) (k : PeerId) :
    s.addVoicePeer p k = (s k || (p.id = k && p.screenSharing)) := by
  rw [addVoicePeer]
  cases hp : p.screenSharing with
  | true =>
    rw [if_pos rfl, upsertShare, Function.update_apply]
    by_cases hk : k = p.id
    · simp [hk]
    · simp [hk, Ne.symm hk]
  | false => simp

lemma foldl_addVoicePeer (s : Shares) (peers : List PeerInfo) (k : PeerId) :
    peers.foldl addVoicePeer s k = (s k || peers.any fun p => p.id = k && p.screenSharing) := by
  induction peers generalizing s with
  | nil => simp
  | cons p peers ih => rw [List.foldl_cons, ih, addVoicePeer_apply, List.any_cons, Bool.or_assoc]

/-- **The client shows what it is told.** -/
theorem onMsg_apply (s : Shares) (m : Msg) (k : PeerId) :
    s.onMsg m k = (tellsShare m k).getD (s k) := by
  cases m with
  | welcome id peers =>
    rw [onMsg, foldl_addVoicePeer, Bool.false_or]
    rfl
  | peerJoined p =>
    rw [onMsg, addVoicePeer_apply, tellsShare]
    split_ifs with h
    · simp [h.1, h.2]
    · by_cases hk : k = p.id
      · have hp : p.screenSharing = false := by simpa [hk] using h
        simp [hp]
      · simp [Ne.symm hk]
  | peerInfo p =>
    rw [onMsg, tellsShare]
    cases hp : p.screenSharing with
    | true =>
      rw [if_pos rfl, upsertShare, Function.update_apply]
      split_ifs <;> rfl
    | false =>
      rw [if_neg (by decide), removeShare, Function.update_apply]
      split_ifs <;> rfl
  | peerLeft id | screenShareEnded id =>
    rw [onMsg, tellsShare, removeShare, Function.update_apply]
    split_ifs <;> rfl
  | screenShareAvailable id =>
    rw [onMsg, tellsShare, upsertShare, Function.update_apply]
    split_ifs <;> rfl
  | _ => rfl

end Shares

end VoiceHub.Client
