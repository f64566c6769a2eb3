import Mathlib
import VoiceHub.Client.Roster
import VoiceHub.Sfu.Room.Feed

/-!
The roster every client has of the room.

The messages about a peer come from different threads and are queued after the lock is released,
so a later one may overtake an earlier one, a welcome not least. Where none does that to one that
tells otherwise, every client ends up with the room's peers.
-/

namespace VoiceHub.Sfu.Room

open VoiceHub.Lib
open VoiceHub.Client (Participant Participants Aspect Word Fits)

variable {ch : Choice} {a : Act} {st : State} {r : Effect} {c c' : Config} {l : Label}
  {v : PeerId} {m : Msg}

/-- The client ids of the peers that joined. -/
def clientOf (seen : PeerId → Option Peer) (k : PeerId) : Option String := (seen k).map (·.clientId)

/-- What is to be known of an entry. -/
def Entry.word (e : Entry) : Aspect → Word
  | .here => .present
  | .name => .name e.displayName
  | .flags => .flags e.selfMuted e.deafened

lemma word_of_info (st : State) (e : Entry) (asp : Aspect) : Word.of (st.info e) asp = e.word asp := by
  cases asp <;> rfl

/-- How the others are for `v`. -/
def rosterNow (ps : Peers) (v : PeerId) : PeerId × Aspect → Option Word
  | (k, asp) =>
    if k = v then none
    else
      match ps.get k with
      | some e => some (e.word asp)
      | none => if asp = .here then some .absent else none

def rosterTells (seen : PeerId → Option Peer) : Msg → PeerId × Aspect → Option Word :=
  VoiceHub.Client.tells (clientOf seen)

/-- The roster of a client that enters `self` for itself. -/
def rosterFeed (self : Participant) : Feed (PeerId × Aspect) Word Participants where
  tells := rosterTells
  now := rosterNow
  start := fun _ => none
  onMsg ps := ps.onMsg self
  Shows ps k w := w.Shown (ps k.1)

section Now

variable {ps ps' : Peers} {seen seen' : PeerId → Option Peer} {k : PeerId} {asp : Aspect} {w : Word}

lemma rosterNow_of_get {e : Entry} (hk : k ≠ v) (he : ps.get k = some e) :
    rosterNow ps v (k, asp) = some (e.word asp) := by
  rw [rosterNow, if_neg hk, he]

lemma rosterNow_of_none (hk : k ≠ v) (he : ps.get k = none) :
    rosterNow ps v (k, asp) = if asp = .here then some .absent else none := by
  rw [rosterNow, if_neg hk, he]

lemma ne_of_rosterNow (h : w ∈ rosterNow ps v (k, asp)) : k ≠ v := by
  rintro rfl
  rw [rosterNow, if_pos rfl] at h
  cases h

lemma aspect_of_rosterNow (h : w ∈ rosterNow ps v (k, asp)) : w.aspect = asp := by
  have hk := ne_of_rosterNow h
  cases he : ps.get k with
  | some e =>
    rw [rosterNow_of_get hk he] at h
    obtain rfl := Option.some.inj h
    cases asp <;> rfl
  | none =>
    rw [rosterNow_of_none hk he] at h
    split_ifs at h with hasp
    · obtain rfl := Option.some.inj h
      exact hasp.symm
    · cases h

lemma right_of_isInfo {p : PeerInfo} {w' : Word} (hp : IsInfo ps p)
    (hw' : w' ∈ rosterNow ps v (p.id, asp)) : Word.of p asp = w' := by
  obtain ⟨st, e, he, rfl⟩ := hp
  have hk := ne_of_rosterNow hw'
  rw [rosterNow_of_get hk (show ps.get (st.info e).id = some e from he)] at hw'
  rw [word_of_info]
  exact Option.some.inj hw'

/-- **What holds of the peers is right.** -/
lemma right_of_holds (hknown : ∀ k e, ps.get k = some e → seen k = some e.peer)
    (h : Holds ps v m) : Post.Right (rosterTells seen) m (rosterNow ps v) := by
  rintro ⟨k, asp⟩ w hw w' hw'
  have hk := ne_of_rosterNow hw'
  change VoiceHub.Client.tells (clientOf seen) m (k, asp) = some w at hw
  cases m with
  | welcome id peers =>
    obtain ⟨rfl, st, entries, rfl, -, hmem⟩ := h
    obtain rfl := Option.some.inj hw
    cases hfind : (entries.map st.info).find? (·.id = k) with
    | some p =>
      obtain ⟨e, he, rfl⟩ := List.mem_map.mp (List.mem_of_find?_eq_some hfind)
      have hid : (st.info e).id = k := by simpa using List.find?_some hfind
      subst hid
      -- the welcome lists every other peer
      exact right_of_isInfo (isInfo_of_get st ((hmem e).mp he).1) hw'
    | none =>
      -- whom it does not list is not there
      have hnone : ps.get k = none := by
        refine Option.eq_none_iff_forall_not_mem.mpr fun e he => ?_
        have hid := ps.id_of_get he
        have hin : e ∈ entries := (hmem e).mpr ⟨hid ▸ he, hid ▸ hk⟩
        have hne := List.find?_eq_none.mp hfind _ (List.mem_map_of_mem hin)
        exact hne (decide_eq_true hid)
      rw [rosterNow_of_none hk hnone] at hw'
      split_ifs at hw'
      · exact Option.some.inj hw'
      · cases hw'
  | peerJoined p =>
    obtain ⟨hp, -, hapart⟩ := h
    rw [VoiceHub.Client.tells] at hw
    split_ifs at hw with hkp hdrop
    · subst hkp
      obtain rfl := Option.some.inj hw
      exact right_of_isInfo hp hw'
    · obtain rfl := Option.some.inj hw
      obtain ⟨hc, hclient, rfl⟩ := hdrop
      -- whom the new peer replaces is gone
      have hnone : ps.get k = none := by
        refine Option.eq_none_iff_forall_not_mem.mpr fun e he => hapart k e he hkp hc ?_
        rw [clientOf, hknown k e he] at hclient
        exact Option.some.inj hclient
      rw [rosterNow_of_none hk hnone, if_pos rfl] at hw'
      exact Option.some.inj hw'
  | peerLeft id =>
    rw [VoiceHub.Client.tells] at hw
    split_ifs at hw with hkp
    obtain ⟨rfl, rfl⟩ := hkp
    obtain rfl := Option.some.inj hw
    rw [rosterNow_of_none hk h, if_pos rfl] at hw'
    exact Option.some.inj hw'
  | peerInfo p =>
    rw [VoiceHub.Client.tells] at hw
    split_ifs at hw with hkp
    obtain ⟨rfl, rfl⟩ := hkp
    obtain rfl := Option.some.inj hw
    exact right_of_isInfo h hw'
  | peerState id selfMuted deafened =>
    rw [VoiceHub.Client.tells] at hw
    split_ifs at hw with hkp
    obtain ⟨rfl, rfl⟩ := hkp
    obtain rfl := Option.some.inj hw
    cases he : ps.get k with
    | some e =>
      rw [rosterNow_of_get hk he] at hw'
      obtain rfl := Option.some.inj hw'
      obtain ⟨hmuted, hdeafened⟩ := h e he
      rw [Entry.word, hmuted, hdeafened]
    | none =>
      rw [rosterNow_of_none hk he, if_neg (by decide)] at hw'
      cases hw'
  | _ => cases hw

/-- **A message that holds of the peers can be read.** -/
lemma fits_of_holds (hknown : ∀ k e, ps.get k = some e → seen k = some e.peer)
    (hapart : ps.Apart) (h : Holds ps v m) : Fits (clientOf seen) v m := by
  have hinfo : ∀ p, IsInfo ps p → clientOf seen p.id = some p.clientId := by
    rintro p ⟨st, e, he, rfl⟩
    rw [clientOf, show seen (st.info e).id = some e.peer from hknown _ e he]
    rfl
  cases m with
  | welcome id peers =>
    obtain ⟨rfl, st, entries, rfl, hnodup, hmem⟩ := h
    refine ⟨rfl, fun p hp => ?_, List.pairwise_map.mpr ?_⟩
    · obtain ⟨e, he, rfl⟩ := List.mem_map.mp hp
      exact hinfo _ (isInfo_of_get st ((hmem e).mp he).1)
    · refine (List.pairwise_map.mp hnodup).imp_of_mem fun {e e'} he he' hne => ⟨hne, fun hc => ?_⟩
      exact hapart _ _ e' e ((hmem e').mp he').1 ((hmem e).mp he).1 (Ne.symm hne) hc
  | peerJoined p => exact hinfo p h.1
  | peerInfo p => exact hinfo p h
  | _ => trivial

lemma fits_mono (hseen : ∀ k p, seen k = some p → seen' k = some p)
    (h : Fits (clientOf seen) v m) : Fits (clientOf seen') v m := by
  have hclient : ∀ k x, clientOf seen k = some x → clientOf seen' k = some x := by
    intro k x hx
    obtain ⟨p, hp, rfl⟩ := Option.map_eq_some_iff.mp hx
    exact Option.map_eq_some_iff.mpr ⟨p, hseen k p hp, rfl⟩
  cases m with
  | welcome id peers => exact ⟨h.1, fun p hp => hclient _ _ (h.2.1 p hp), h.2.2⟩
  | peerJoined p => exact hclient _ _ h
  | peerInfo p => exact hclient _ _ h
  | _ => trivial

lemma fits_of_not_roster {clientOf : PeerId → Option String} (h : m.isRoster = false) :
    Fits clientOf v m := by
  cases m with
  | welcome id peers => cases h
  | peerJoined p => cases h
  | peerInfo p => cases h
  | _ => trivial

end Now

/-! ### What is told can be read -/

/-- Every message to a peer, queued or still to be, can be read by it. -/
structure Legible (c : Config) : Prop where
  pending : ∀ seq v m, .send seq v m ∈ c.work → Fits (clientOf c.st.seen) v m
  log : ∀ v, ∀ m ∈ (c.st.outbox v).log, Fits (clientOf c.st.seen) v m

lemma legible_init : Legible init where
  pending seq v m h := by cases h
  log v m h := by cases h

lemma Legible.step (h : Legible c) (hw : Wired c) (hs : step c l = some c') : Legible c' := by
  cases l with
  | run i ch =>
    obtain ⟨a, r, W, -, hr, hst, hmem, hwork, -⟩ := pendingNotices_run hs
    have hmono : ∀ v m, Fits (clientOf c.st.seen) v m → Fits (clientOf r.st.seen) v m :=
      fun v m => fits_mono fun k p => exec_seen hr
    constructor
    · intro seq v m hsend
      rw [hst]
      cases hm : m.isRoster with
      | false => exact fits_of_not_roster hm
      | true =>
        obtain hnew | hold | hnone := hwork _ hsend
        · -- it has just been computed
          exact fits_of_holds (exec_known hr hw.known) ((hw.notifies hr).apart hw.apart)
            ((hw.notifies hr).holds seq v m hnew hm)
        · -- it was pending before
          exact hmono v m (h.pending seq v m hold)
        · exact absurd hm (by rw [show m.isRoster = false from hnone]; decide)
    · intro v m hm
      rw [hst] at hm ⊢
      obtain hlog | ⟨seq, m', rfl, -, hlog⟩ := exec_log hr v
      · rw [hlog] at hm
        exact hmono v m (h.log v m hm)
      · rw [hlog] at hm
        obtain hm | hm := List.mem_append.mp hm
        · exact hmono v m (h.log v m hm)
        · obtain rfl := List.mem_singleton.mp hm
          exact hmono v m (h.pending seq v m hmem)
  | event e =>
    obtain ⟨st, o, todo, hb, rfl, -⟩ := step_event hs
    obtain ⟨-, hseen, -, htodo⟩ := begin_tells hb
    constructor
    · intro seq v m hsend
      rw [Pool.work_launch] at hsend
      rw [Pool.st_launch, hseen]
      obtain hold | hnew := List.mem_append.mp hsend
      · exact h.pending seq v m hold
      · exact fits_of_not_roster (eq_false_of_watched htodo _ hnew)
    · intro v m hm
      rw [Pool.st_launch] at hm ⊢
      rw [hseen]
      obtain hlog | hlog := begin_log hb v
      · rw [hlog] at hm
        exact h.log v m hm
      · rw [hlog] at hm
        obtain hm | hm := List.mem_append.mp hm
        · exact h.log v m hm
        · obtain rfl := List.mem_singleton.mp hm
          trivial

theorem Reach.legible {G : Config → Label → Prop} (h : Reach G c) : Legible c :=
  Machine.Reach.invariant' (I := Legible) legible_init
    (fun _ _ _ hr hl _ hs => hl.step (Reach.wired hr) hs) h

/-! ### The roster feed -/

lemma rosterTells_congr {seen seen' : PeerId → Option Peer} {k : PeerId} (h : seen k = seen' k)
    (m : Msg) (asp : Aspect) : rosterTells seen m (k, asp) = rosterTells seen' m (k, asp) := by
  have hclient : clientOf seen k = clientOf seen' k := by rw [clientOf, clientOf, h]
  cases m with
  | peerJoined p =>
    change VoiceHub.Client.tells _ _ _ = VoiceHub.Client.tells _ _ _
    rw [VoiceHub.Client.tells, VoiceHub.Client.tells, hclient]
  | _ => rfl

section Feed

variable {self : Participant}

/-- **Every step tells every client what it changed.** -/
lemma roster_covers (hw : Wired c) (hr : exec ch a c.st = some r) (hv : (r.st.peers.get v).isSome) :
    (rosterFeed self).Covers v c.st r := by
  have hnotifies := hw.notifies hr
  refine ⟨fun n hn => ?_, ?_⟩
  · obtain ⟨hsend, hm⟩ := mem_notices.mp hn
    exact right_of_holds (exec_known hr hw.known) (hnotifies.holds _ _ _ hsend hm)
  obtain ⟨peers, hwelcome⟩ | ⟨hold, htold⟩ := hnotifies.told v hv
  · -- a welcome tells about everybody
    exact .inl fun k hs => tells_ne_of_silent hs rfl hwelcome rfl
  refine .inr ⟨hold, ?_⟩
  rintro ⟨k, asp⟩ hs
  have htold := htold k
  -- whoever is new is told of as joining
  have hstays : c.st.peers.get k = none → r.st.peers.get k = none := by
    intro hnone
    cases he : r.st.peers.get k with
    | none => rfl
    | some e =>
      obtain ⟨p, rfl, hsent⟩ := htold.came hnone e he
      exact absurd (if_pos rfl) (tells_ne_of_silent hs rfl hsent)
  refine ⟨fun m => ?_, fun w hnow => ?_⟩
  · -- what a message tells depends on what has been seen
    obtain heq | ⟨hnone, hjoined⟩ := exec_seen_eq hr k
    · exact rosterTells_congr heq.symm m asp
    · have habsent : c.st.peers.get k = none := by
        refine Option.eq_none_iff_forall_not_mem.mpr fun e he => ?_
        rw [hw.known k e he] at hnone
        cases hnone
      rw [hstays habsent] at hjoined
      cases hjoined
  · have hk := ne_of_rosterNow hnow
    change w ∈ rosterNow c.st.peers v (k, asp)
    cases he' : r.st.peers.get k with
    | none =>
      have hnow : w ∈ rosterNow r.st.peers v (k, asp) := hnow
      rw [rosterNow_of_none hk he'] at hnow
      cases he : c.st.peers.get k with
      | none => rwa [rosterNow_of_none hk he]
      | some e =>
        split_ifs at hnow with hasp
        · -- who has gone is told of as leaving
          exact absurd (if_pos ⟨rfl, hasp⟩) (tells_ne_of_silent hs rfl (htold.gone e he he'))
        · cases hnow
    | some e' =>
      have hnow : w ∈ rosterNow r.st.peers v (k, asp) := hnow
      rw [rosterNow_of_get hk he'] at hnow
      cases he : c.st.peers.get k with
      | none =>
        rw [hstays he] at he'
        cases he'
      | some e =>
        obtain rfl := Option.some.inj hnow
        rw [rosterNow_of_get hk he]
        refine congrArg some ?_
        cases asp with
        | here => rfl
        | name =>
          obtain heq | ⟨p, rfl, hsent⟩ := htold.displayName e e' he he' hk
          · rw [Entry.word, Entry.word, heq]
          · -- a new name is told
            exact absurd (if_pos ⟨rfl, rfl⟩) (tells_ne_of_silent hs rfl hsent)
        | flags =>
          obtain ⟨hmuted, hdeafened⟩ | ⟨selfMuted, deafened, hsent⟩ := htold.flags e e' he he' hk
          · rw [Entry.word, Entry.word, hmuted, hdeafened]
          · -- new flags are told
            exact absurd (if_pos ⟨rfl, rfl⟩) (tells_ne_of_silent hs rfl hsent)

lemma roster_reads (hl : Legible c) {seq : ℕ} (hsend : .send seq v m ∈ c.work) :
    (rosterFeed self).Reads c v m := by
  have hknown : (Participants.ofLog self (c.st.outbox v).log).Known (clientOf c.st.seen) v :=
    Participants.known_ofLog (hl.log v)
  constructor
  · rintro ⟨k, asp⟩ w hw hnow
    exact VoiceHub.Client.shown_of_tells (hl.pending seq v m hsend) hknown (ne_of_rosterNow hnow) hw
  · rintro ⟨k, asp⟩ hw w hnow hshown
    refine VoiceHub.Client.shown_of_silent hknown (ne_of_rosterNow hnow) ?_ hshown
    rw [aspect_of_rosterNow hnow]
    exact hw

lemma roster_other (ps : Participants) {m : Msg} (hm : m.isRoster = false) :
    (rosterFeed self).onMsg ps m = ps := by
  cases m with
  | welcome id peers => cases hm
  | peerJoined p => cases hm
  | peerLeft id => cases hm
  | peerInfo p => cases hm
  | peerState id selfMuted deafened => cases hm
  | _ => rfl

end Feed

/-- What the client of `v` has of the others are the room's peers. Any name will do for one
without. -/
def RosterAgrees (self : Participant) (c : Config) (v : PeerId) : Prop :=
  ∀ k ≠ v, ((Participants.ofLog self (c.st.outbox v).log) k).isSome = (c.st.peers.get k).isSome ∧
    ∀ e y, c.st.peers.get k = some e → Participants.ofLog self (c.st.outbox v).log k = some y →
      (e.displayName ≠ "" → y.display = e.displayName) ∧ y.clientId = e.peer.clientId ∧
        y.remoteMuted = e.selfMuted ∧ y.remoteDeafened = e.deafened

/-- **The roster of every client converges**, in runs in which no message overtakes an earlier one
that tells otherwise. -/
theorem roster_converges (h : Reach (InOrder rosterTells) c) (hquiet : c.Quiet)
    (hv : (c.st.peers.get v).isSome) (ho : (c.st.outbox v).overflowed = false)
    (self : Participant) : RosterAgrees self c v := by
  have hfollows : (rosterFeed self).Follows c v := by
    refine Feed.follows (fun c l _ hg => hg) (fun c l a r ch v hr _ _ hexec hv => ?_)
      (fun ps m hm => roster_other ps hm) (fun c v seq m hr hsend _ _ => ?_) h v hv ho
    · exact roster_covers (Reach.wired hr) hexec hv
    · exact roster_reads (Reach.legible hr) hsend
  rw [Feed.Follows, pendingNotices, hquiet] at hfollows
  intro k hk
  have hshown : ∀ asp, ∀ w ∈ rosterNow c.st.peers v (k, asp),
      w.Shown (Participants.ofLog self (c.st.outbox v).log k) :=
    fun asp => hfollows.done (k, asp)
  refine ⟨?_, fun e y he hy => ⟨?_, ?_, ?_⟩⟩
  · have hhere := hshown .here
    cases he : c.st.peers.get k with
    -- the welcome, or a later join, tells that it is here
    | some e => exact hhere .present (rosterNow_of_get hk he)
    | none =>
      -- who is not here is told of as absent
      have habsent := hhere .absent (rosterNow_of_none hk he)
      rw [show Participants.ofLog self (c.st.outbox v).log k = none from habsent]
      rfl
  · exact fun hname => hshown .name (.name e.displayName) (rosterNow_of_get hk he) hname y hy
  · have hclient := Participants.known_ofLog ((Reach.legible h).log v) k hk y hy
    rw [clientOf, (Reach.wired h).known k e he] at hclient
    exact (Option.some.inj hclient).symm
  · exact hshown .flags (.flags e.selfMuted e.deafened) (rosterNow_of_get hk he) y hy

/-- A peer joins, and a second one whose welcome is computed. -/
def welcoming : List Label :=
  [.event (.join ⟨"p", "c1", false⟩ "A"), .run 0 .plain, .run 0 .plain, .run 0 .plain,
    .event (.join ⟨"v", "c2", false⟩ "V"), .run 1 .plain]

/-- The welcome is queued, and the first peer takes another name. -/
def renamed : List Label :=
  welcoming ++ [.run 1 .plain, .run 1 .plain, .run 1 .plain,
    .event (.setDisplayName "p" "B"), .run 2 .plain, .run 2 .plain, .run 2 .plain]

/-- The other way round: the new name overtakes the welcome. -/
def overtaken : List Label :=
  welcoming ++ [.event (.setDisplayName "p" "B"), .run 2 .plain, .run 2 .plain, .run 2 .plain,
    .run 1 .plain, .run 1 .plain, .run 1 .plain]

/-- What the second peer enters for itself. -/
def myself : Participant := ⟨"V", "c2", false, false⟩

theorem roster_converges_renamed :
    ∃ y, Participants.ofLog myself ((after renamed).st.outbox "v").log "p" = some y ∧
      y.display = "B" := by
  have hreach : Reach (InOrder rosterTells) (after renamed) :=
    (reach_after (G := guard inSeq) (by decide +kernel) (by decide +kernel)).mono
      fun _ _ => inOrder_of_inSeq
  have hagrees := roster_converges hreach (by decide +kernel) (v := "v") (by decide +kernel)
    (by decide +kernel) myself
  obtain ⟨hthere, hshown⟩ := hagrees "p" (by decide)
  have hname : ((after renamed).st.peers.get "p").map (·.displayName) = some "B" := by
    decide +kernel
  obtain ⟨e, he, hB⟩ := Option.map_eq_some_iff.mp hname
  rw [he] at hthere
  obtain ⟨y, hy⟩ := Option.isSome_iff_exists.mp hthere
  obtain ⟨hdisplay, -⟩ := hshown e y he hy
  refine ⟨y, hy, ?_⟩
  rw [hB] at hdisplay
  exact hdisplay (by decide)

/-- A welcome that a new name overtook brings the old one back. -/
theorem roster_overtaken :
    ¬ ∀ c, Reach Machine.free c → c.Quiet → ∀ v, (c.st.peers.get v).isSome →
      (c.st.outbox v).overflowed = false → ∀ self, RosterAgrees self c v := by
  intro h
  have hagrees := h (after overtaken) (reach_after (by decide +kernel) (by decide +kernel))
    (by decide +kernel) "v" (by decide +kernel) (by decide +kernel) myself
  obtain ⟨-, hshown⟩ := hagrees "p" (by decide)
  have hname : ((after overtaken).st.peers.get "p").map (·.displayName) = some "B" := by
    decide +kernel
  have hdisplay : (Participants.ofLog myself ((after overtaken).st.outbox "v").log "p").map
      (·.display) = some "A" := by decide +kernel
  obtain ⟨e, he, hB⟩ := Option.map_eq_some_iff.mp hname
  obtain ⟨y, hy, hA⟩ := Option.map_eq_some_iff.mp hdisplay
  obtain ⟨heq, -⟩ := hshown e y he hy
  rw [hB, hA] at heq
  exact absurd (heq (by decide)) (by decide)

end VoiceHub.Sfu.Room
