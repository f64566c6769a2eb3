import Mathlib
import VoiceHub.Sfu.Room.Ops

/-!
The rooms as a page shows them that listens to `/api/presence`.
-/

namespace VoiceHub.Client

open VoiceHub.Sfu (PeerId PeerInfo)
open VoiceHub.Sfu.Room (Delta)

structure PeerSummary where
  id : PeerId
  displayName : String
  chatOnly : Bool
  deriving DecidableEq

/-- What JavaScript's `trim` takes off. -/
def isSpace (c : Char) : Bool :=
  (9 ≤ c.toNat && c.toNat ≤ 13) || (0x2000 ≤ c.toNat && c.toNat ≤ 0x200A) ||
    [0x20, 0xA0, 0x1680, 0x2028, 0x2029, 0x202F, 0x205F, 0x3000, 0xFEFF].contains c.toNat

def trim (s : String) : String :=
  .ofList ((s.toList.dropWhile isSpace).reverse.dropWhile isSpace).reverse

/-- The server leaves out an empty name. -/
def parsePeer (p : PeerInfo) : PeerSummary where
  id := p.id
  displayName := if trim p.displayName = "" then "peer-" ++ p.id else trim p.displayName
  chatOnly := p.chatOnly

abbrev RoomPeers (R : Type) := R → List PeerSummary

/-- An event of the stream. -/
inductive Frame (R : Type)
  | snapshot (rooms : R → List PeerInfo)
  | delta (room : R) (d : Delta)

variable {R : Type} [DecidableEq R]

namespace RoomPeers

/-- `presence-peer-joined` and `presence-peer-updated`. -/
def upsert (peers : RoomPeers R) (room : R) (peer : PeerSummary) : RoomPeers R :=
  Function.update peers room ((peers room).filter (·.id ≠ peer.id) ++ [peer])

/-- `presence-peer-left`. -/
def remove (peers : RoomPeers R) (room : R) (id : PeerId) : RoomPeers R :=
  Function.update peers room ((peers room).filter (·.id ≠ id))

def onFrame (peers : RoomPeers R) : Frame R → RoomPeers R
  | .snapshot rooms => fun room => (rooms room).map parsePeer
  | .delta room (.joined info) | .delta room (.updated info) => peers.upsert room (parsePeer info)
  | .delta room (.left id) => peers.remove room id

end RoomPeers

/-! ### Peer by peer -/

/-- What a list shows of one peer. -/
def shown (peers : List PeerSummary) (id : PeerId) : List PeerSummary := peers.filter (·.id = id)

lemma perm_of_shown {l l' : List PeerSummary} (h : shown l = shown l') : l.Perm l' := by
  refine List.perm_iff_count.mpr fun p => ?_
  have hcount (l : List PeerSummary) : (shown l p.id).count p = l.count p :=
    List.count_filter (by simp)
  rw [← hcount l, ← hcount l', h]

lemma shown_remove (l : List PeerSummary) (id : PeerId) :
    shown (l.filter (·.id ≠ id)) = Function.update (shown l) id [] := by
  funext k
  rw [shown, List.filter_filter, Function.update_apply]
  split_ifs with hk
  · subst hk
    exact List.filter_eq_nil_iff.mpr fun p _ => by simp
  · refine List.filter_congr fun p _ => ?_
    simp only [Bool.and_eq_left_iff_imp, decide_eq_true_eq]
    rintro rfl
    exact hk

lemma shown_upsert (l : List PeerSummary) (peer : PeerSummary) :
    shown (l.filter (·.id ≠ peer.id) ++ [peer]) = Function.update (shown l) peer.id [peer] := by
  funext k
  rw [shown, List.filter_append]
  have hrest := congrFun (shown_remove l peer.id) k
  rw [shown, Function.update_apply] at hrest
  rw [hrest, Function.update_apply]
  split_ifs with hk
  · simp [hk]
  · simp [Ne.symm hk]

end VoiceHub.Client

namespace VoiceHub.Sfu.Room.Delta

open VoiceHub.Client (PeerSummary parsePeer)

/-- The peer it is about. -/
def subject : Delta → PeerId
  | joined info | updated info => info.id
  | left id => id

/-- What it has its peer shown as. -/
def shows : Delta → List PeerSummary
  | joined info | updated info => [parsePeer info]
  | left _ => []

end VoiceHub.Sfu.Room.Delta

namespace VoiceHub.Client.RoomPeers

variable {R : Type} [DecidableEq R]

lemma shown_onFrame_delta (peers : RoomPeers R) (room r : R) (d : VoiceHub.Sfu.Room.Delta) :
    shown (peers.onFrame (.delta room d) r) =
      if r = room then Function.update (shown (peers r)) d.subject d.shows else shown (peers r) := by
  by_cases hr : r = room
  · subst hr
    rw [if_pos rfl]
    cases d <;> simp only [onFrame, upsert, remove, Function.update_self]
    · exact shown_upsert _ _
    · exact shown_remove _ _
    · exact shown_upsert _ _
  · rw [if_neg hr]
    cases d <;> simp only [onFrame, upsert, remove, Function.update_of_ne hr]

end VoiceHub.Client.RoomPeers
