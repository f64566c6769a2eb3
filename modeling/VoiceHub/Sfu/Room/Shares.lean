import Mathlib
import VoiceHub.Client.Roster
import VoiceHub.Sfu.Room.Exclusive
import VoiceHub.Sfu.Room.Feed

/-!
The shares every client is shown.

A share is announced by sections that have looked at the session before, and retracted by the one
that takes it off its publisher. What is retracted stays so where nothing is announced of a peer
that owns no session any more, and no message overtakes an earlier one that tells otherwise.
-/

namespace VoiceHub.Sfu.Room

open VoiceHub.Lib
open VoiceHub.Client (Shares tellsShare)

variable {ch : Choice} {a : Act} {st : State} {r : Effect} {c : Config} {v p : PeerId} {m : Msg}

/-- The peer owns a session. -/
def Peers.owns (ps : Peers) (id : PeerId) : Bool := ((ps.get id).bind (·.screenSession)).isSome

/-- Nobody has to see a share; one that is over nobody is to see. -/
def sharesNow (ps : Peers) (_ : PeerId) (k : PeerId) : Option Bool :=
  if ps.owns k then none else some false

def sharesTells (_ : PeerId → Option Peer) : Msg → PeerId → Option Bool := tellsShare

def sharesFeed : Feed PeerId Bool Shares where
  tells := sharesTells
  now := sharesNow
  start := fun _ => false
  onMsg := Shares.onMsg
  Shows s k w := s k = w

/-- A share is announced only of a peer that still owns a session, or is not there. -/
def announcesOwned (c : Config) (a : Act) : Bool :=
  match a.announces with
  | some p => (c.st.peers.get p).isNone || c.st.peers.owns p
  | none => true

section Now

variable {ps : Peers} {k : PeerId} {w : Bool}

lemma mem_sharesNow : w ∈ sharesNow ps v k ↔ ps.owns k = false ∧ w = false := by
  rw [sharesNow]
  cases ps.owns k <;> simp [eq_comm]

lemma owns_of_get {e : Entry} (he : ps.get k = some e) : ps.owns k = e.screenSession.isSome := by
  rw [Peers.owns, he]
  rfl

/-- **What holds of the peers is right**, but for announcements. -/
lemma sharesRight_of_holds (h : Holds ps v m)
    (hshare : ∀ p hasSystemAudio videoCodec mode,
      m = .screenShareAvailable p hasSystemAudio videoCodec mode → ps.owns p = true) :
    Post.Right tellsShare m (sharesNow ps v) := by
  intro k w hw w' hw'
  obtain ⟨hover, rfl⟩ := mem_sharesNow.mp hw'
  have hinfo : ∀ i, IsInfo ps i → i.id = k → i.screenSharing = false := by
    rintro i ⟨st, e, he, rfl⟩ rfl
    rw [show ps.owns (st.info e).id = e.screenSession.isSome from owns_of_get he] at hover
    exact hover
  change tellsShare m k = some w at hw
  cases m with
  | welcome id peers =>
    obtain ⟨-, st, entries, rfl, -, hmem⟩ := h
    obtain rfl := Option.some.inj hw
    refine List.any_eq_false.mpr fun i hi => ?_
    obtain ⟨e, he, rfl⟩ := List.mem_map.mp hi
    have hsharing := hinfo _ (isInfo_of_get st ((hmem e).mp he).1)
    intro hboth
    obtain ⟨hid, hs⟩ := (Bool.and_eq_true _ _).mp hboth
    rw [hsharing (of_decide_eq_true hid)] at hs
    cases hs
  | peerJoined i =>
    rw [tellsShare] at hw
    split_ifs at hw with hi
    rw [h.2.1] at hi
    cases hi.2
  | peerInfo i =>
    rw [tellsShare] at hw
    split_ifs at hw with hi
    rw [← Option.some.inj hw]
    exact hinfo i h hi.symm
  | peerLeft id | screenShareEnded id =>
    rw [tellsShare] at hw
    split_ifs at hw
    exact (Option.some.inj hw).symm
  | screenShareAvailable id =>
    rw [tellsShare] at hw
    split_ifs at hw with hid
    rw [hid, hshare _ _ _ _ rfl] at hover
    cases hover
  | _ => cases hw

end Now

lemma exec_announces (h : exec ch a st = some r) (ha : a.announces = some p) :
    r.st.peers = st.peers ∧ ∀ seq v m, .send seq v m ∈ r.next → m.isRoster = true →
      (st.peers.get p).isSome := by
  cases a with
  | announceResume id s old =>
    obtain rfl := Option.some.inj h
    obtain rfl := Option.some.inj ha
    simp only [State.announceResume]
    split
    · exact ⟨rfl, fun seq v m hm => by cases hm⟩
    · next e he => exact ⟨rfl, fun _ _ _ _ _ => by rw [he]; rfl⟩
  | firstVideoAnnounce s id =>
    obtain rfl := Option.some.inj h
    obtain rfl := Option.some.inj ha
    simp only [State.firstVideoAnnounce]
    split
    · exact ⟨rfl, fun seq v m hm => by cases hm⟩
    · next e he => exact ⟨rfl, fun _ _ _ _ _ => by rw [he]; rfl⟩
  | _ => cases ha

/-- **Every step that ends a share tells every client.** -/
lemma shares_cover (hw : Wired c) (hr : exec ch a c.st = some r) (ha : announcesOwned c a = true)
    (hv : (r.st.peers.get v).isSome) : sharesFeed.Covers v c.st r := by
  have hnotifies := hw.notifies hr
  refine ⟨fun n hn => ?_, ?_⟩
  · obtain ⟨hsend, hm⟩ := mem_notices.mp hn
    refine sharesRight_of_holds (hnotifies.holds _ _ _ hsend hm) fun p b codec mode heq => ?_
    rw [heq] at hsend
    have hann := hnotifies.announces _ _ _ _ _ _ hsend
    obtain ⟨hpeers, hthere⟩ := exec_announces hr hann
    rw [announcesOwned, hann] at ha
    rw [hpeers]
    have hsome := hthere _ _ _ hsend rfl
    simpa [Option.isNone_eq_false_iff.mpr hsome] using ha
  have hsilent : ∀ {k : PeerId} {m : Msg} {w : Bool}, Post.Silent tellsShare ↑(notices v r.next) k →
      m.isRoster = true → sentTo r.next v m → tellsShare m k ≠ some w :=
    tells_ne_of_silent
  obtain ⟨peers, hwelcome⟩ | ⟨hold, htold⟩ := hnotifies.told v hv
  · exact .inl fun k hs => hsilent hs rfl hwelcome rfl
  refine .inr ⟨hold, fun k hs => ⟨fun m => rfl, fun w hnow => ?_⟩⟩
  have htold := htold k
  obtain ⟨hover, rfl⟩ := (mem_sharesNow (v := v)).mp hnow
  refine (mem_sharesNow (v := v)).mpr ⟨?_, rfl⟩
  cases he : c.st.peers.get k with
  | none =>
    rw [Peers.owns, he]
    rfl
  | some e =>
    rw [owns_of_get he]
    cases he' : r.st.peers.get k with
    | none => exact absurd (if_pos rfl) (hsilent hs rfl (htold.gone e he he'))
    | some e' =>
      rw [owns_of_get he', Option.isSome_eq_false_iff, Option.isNone_iff_eq_none] at hover
      obtain hkeeps | hsent := htold.session e e' he he'
      · rw [hkeeps hover]
        rfl
      · exact absurd (if_pos rfl) (hsilent hs rfl hsent)

lemma shares_read (m : Msg) : sharesFeed.Reads c v m := by
  constructor
  · intro k w hw _
    have hw : tellsShare m k = some w := hw
    exact (Shares.onMsg_apply _ m k).trans (by rw [hw]; rfl)
  · intro k hw w _ hshown
    have hw : tellsShare m k = none := hw
    exact (Shares.onMsg_apply _ m k).trans (by rw [hw]; exact hshown)

lemma shares_other (s : Shares) {m : Msg} (hm : m.isRoster = false) : s.onMsg m = s := by
  cases m with
  | welcome id peers => cases hm
  | peerJoined i => cases hm
  | peerLeft id => cases hm
  | peerInfo i => cases hm
  | screenShareAvailable id => cases hm
  | screenShareEnded id => cases hm
  | _ => rfl

/-- Announcements come in order, and only of what is there. -/
def Announced (c : Config) (l : Label) : Prop := InOrder sharesTells c l ∧ guard announcesOwned c l

/-- **No phantom share.** -/
theorem no_phantom_share (h : Reach Announced c) (hquiet : c.Quiet)
    (hv : (c.st.peers.get v).isSome) (ho : (c.st.outbox v).overflowed = false)
    (hshown : Shares.ofLog (c.st.outbox v).log p = true) :
    ∃ s, c.st.owned p = some s ∧ (c.st.sessions s).closed = false := by
  have hfollows : sharesFeed.Follows c v := by
    refine Feed.follows (fun c l _ hg => hg.1) (fun c l a r ch v hr hg ha hexec hv => ?_)
      (fun s m hm => shares_other s hm) (fun c v seq m _ _ _ _ => shares_read m) h v hv ho
    exact shares_cover (Reach.wired hr) hexec (hg.2 a ha) hv
  rw [Feed.Follows, pendingNotices, hquiet] at hfollows
  have howns : c.st.peers.owns p = true := by
    by_contra hover
    have hfalse := hfollows.done p false
      ((mem_sharesNow (v := v)).mpr ⟨Bool.eq_false_iff.mpr hover, rfl⟩)
    rw [show Shares.ofLog (c.st.outbox v).log p = false from hfalse] at hshown
    cases hshown
  obtain ⟨s, hs⟩ := Option.isSome_iff_exists.mp howns
  refine ⟨s, hs, ?_⟩
  by_contra hclosed
  -- a closed session is on its way to being taken off, or off
  have hnothing : ∀ b, b ∉ pending c := fun b hb => by
    have hmem := (mem_pendingOf.mp hb).1
    rw [hquiet] at hmem
    cases hmem
  obtain ⟨subs, hb⟩ | ⟨q, hb⟩ | ⟨hunowned, -⟩ :=
    (Reach.exclusive h).closed s (Bool.eq_true_of_not_eq_false hclosed)
  · exact hnothing _ hb
  · exact hnothing _ hb
  · exact hunowned p (owner_eq_some.mpr hs)

/-- A peer shares, and a second one is there. -/
def arriving : List Label :=
  [.event (.join ⟨"p", "c1", false⟩ "A"), .run 0 .plain, .run 0 .plain, .run 0 .plain,
    .event (.join ⟨"v", "c2", false⟩ "V"), .run 1 .plain, .run 1 .plain, .run 1 .plain,
    .run 1 .plain,
    .event (.screenShareStart "p" ⟨true, none, some .vp9⟩),
    .run 2 .plain, .run 2 .plain, .run 2 .plain, .run 2 .plain]

/-- The first video packet comes, and the share is announced. -/
def announced : List Label :=
  arriving ++ [.event (.firstVideo 1)] ++ List.replicate 10 (.run 3 .plain)

/-- The peer leaves, and a third one takes its share; before that is announced, the share's PC
dies and the share is ended. -/
def diedFirst : List Label :=
  arriving ++ [.event (.leave "p")] ++ List.replicate 5 (.run 3 .plain) ++
    [.event (.join ⟨"q", "c3", false⟩ "B")] ++ List.replicate 4 (.run 4 .plain) ++
    [.event (.screenShareResume "q" 1), .run 5 .plain, .event (.publisherPcDied 1),
      .run 6 .plain] ++
    List.replicate 9 (.run 7 .plain) ++ List.replicate 7 (.run 5 .plain)

theorem no_phantom_share_announced :
    ∃ s, (after announced).st.owned "p" = some s ∧ ((after announced).st.sessions s).closed = false := by
  have hreach : Reach Announced (after announced) :=
    (reach_after (G := guard fun c a => inSeq c a && announcesOwned c a) (by decide +kernel)
      (by decide +kernel)).mono fun c l hg =>
        ⟨inOrder_of_inSeq fun a ha => ((Bool.and_eq_true _ _).mp (hg a ha)).1,
          fun a ha => ((Bool.and_eq_true _ _).mp (hg a ha)).2⟩
  exact no_phantom_share hreach (by decide +kernel) (v := "v") (by decide +kernel)
    (by decide +kernel) (by decide +kernel)

/-- A share that was ended is announced, by the resume that took it before. -/
theorem phantom_share :
    ¬ ∀ c, Reach Machine.free c → c.Quiet → ∀ v, (c.st.peers.get v).isSome →
      (c.st.outbox v).overflowed = false → ∀ p, Shares.ofLog (c.st.outbox v).log p = true →
        ∃ s, c.st.owned p = some s ∧ (c.st.sessions s).closed = false := by
  intro h
  obtain ⟨s, hs, -⟩ := h (after diedFirst) (reach_after (by decide +kernel) (by decide +kernel))
    (by decide +kernel) "v" (by decide +kernel) (by decide +kernel) "q" (by decide +kernel)
  have hnone : (after diedFirst).st.owned "q" = none := by decide +kernel
  rw [hnone] at hs
  cases hs

end VoiceHub.Sfu.Room
