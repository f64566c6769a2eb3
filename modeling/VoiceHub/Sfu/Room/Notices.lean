import Mathlib
import VoiceHub.Sfu.Room.Ownership

/-!
What the peers of a room are told of one another.

A section that changes what a peer is to be told of another computes a message that tells it,
for every peer that is there once the section is over; one that joins gets a welcome.
-/

namespace VoiceHub.Sfu

/-- The messages that tell who is there, and who shares. -/
def Msg.isRoster : Msg → Bool
  | .welcome .. | .peerJoined .. | .peerLeft .. | .peerInfo .. | .peerState ..
  | .screenShareAvailable .. | .screenShareEnded .. => true
  | .screenShareStarted .. | .screenShareError .. | .screenShareEncodePause
  | .screenShareEncodeResume | .offer .. | .answer | .other => false

namespace Room

open VoiceHub.Lib

/-- The steps that tell, and those that make a queue deaf. -/
def Act.isNotice : Act → Bool
  | .send _ _ m => m.isRoster
  | .cancel _ => true
  | _ => false

/-- Whose share a step announces. -/
def Act.announces : Act → Option PeerId
  | .announceResume id _ _ => some id
  | .firstVideoAnnounce _ publisherId => some publisherId
  | _ => none

/-! ### What does not have to be told -/

/-- Nobody is told of a subscription, and of a session only when it is over. -/
structure Entry.Keeps (e e' : Entry) : Prop where
  peer : e'.peer = e.peer
  displayName : e'.displayName = e.displayName
  selfMuted : e'.selfMuted = e.selfMuted
  deafened : e'.deafened = e.deafened
  session : e'.screenSession = none → e.screenSession = none

lemma Entry.Keeps.refl (e : Entry) : e.Keeps e := ⟨rfl, rfl, rfl, rfl, id⟩

def Peers.Keep (ps ps' : Peers) : Prop := ∀ k, Option.Rel Entry.Keeps (ps.get k) (ps'.get k)

lemma Peers.Keep.refl (ps : Peers) : ps.Keep ps := fun k => by
  cases ps.get k with
  | none => exact .none
  | some e => exact .some (.refl e)

lemma Peers.keep_modify (ps : Peers) (id : PeerId) {f : Entry → Entry}
    (hf : ∀ e : Entry, e.Keeps { f e with peer := e.peer }) : ps.Keep (ps.modify id f) := by
  intro k
  rw [Peers.get_modify]
  split_ifs with hk
  · subst hk
    cases ps.get k with
    | none => exact .none
    | some e => exact .some (hf e)
  · exact Peers.Keep.refl ps k

/-- The steps that tell a peer or the hub of something. -/
def Act.isNews : Act → Bool
  | .presence _ _ => true
  | a => a.isNotice

/-- The sections that may change what has to be told. -/
def Act.makesNews : Act → Bool
  | .addPeer _ _ | .removePeer _ | .setDisplayName _ _ | .setState _ _ _ | .endRoster _ _ |
    .announceResume _ _ _ | .firstVideoAnnounce _ _ => true
  | _ => false

/-- A section changed nothing that has to be told, and leaves nothing to tell. -/
structure Discreet (st : State) (r : Effect) : Prop where
  clock : st.clock ≤ r.st.clock
  peers : st.peers.Keep r.st.peers
  next : watched Act.isNews r.next = []

section Discreet

variable {ch : Choice} {a : Act} {st : State} {r : Effect} {ord : Order}

lemma eq_false_of_watched {p : Act → Bool} {l : List Act} (h : watched p l = []) :
    ∀ b ∈ l, p b = false := by
  intro b hb
  by_contra hp
  have hmem : b ∈ watched p l := List.mem_filter.mpr ⟨hb, Bool.eq_true_of_not_eq_false hp⟩
  rw [h] at hmem
  cases hmem

lemma Discreet.next_eq (h : Discreet st r) (hin : a ∈ r.next) : a.isNews = false :=
  eq_false_of_watched h.next a hin

lemma isNotice_of_isNews (h : a.isNews = false) : a.isNotice = false := by
  cases a with
  | presence => cases h
  | _ => exact h

lemma discreet_go {l : List Act} (h : watched Act.isNews l = []) : Discreet st (st.go l) :=
  ⟨le_rfl, .refl _, h⟩

lemma discreet_reply (id : PeerId) {ms : List Msg} (h : ∀ m ∈ ms, m.isRoster = false) :
    Discreet st (st.reply id ms) := by
  refine ⟨Nat.le_add_right .., .refl _, List.filter_eq_nil_iff.mpr fun b hb => ?_⟩
  obtain ⟨x, hx, rfl⟩ := List.mem_map.mp hb
  exact Bool.eq_false_iff.mp (h x.1 (List.fst_mem_of_mem_zipIdx hx))

@[simp] lemma news_closeAndDetach (p : PeerId) (pc : PcId) :
    watched Act.isNews (st.closeAndDetach p pc) = [] := by
  simp [State.closeAndDetach, Act.isNews, Act.isNotice]

lemma keep_detach (v p : PeerId) : st.peers.Keep (st.detach v p).peers :=
  st.peers.keep_modify v fun _ => ⟨rfl, rfl, rfl, rfl, fun h => h⟩

lemma screenShareResume_discreet (id : PeerId) (t : Token) :
    Discreet st (st.screenShareResume ord id t) := by
  unfold State.screenShareResume
  dsimp only
  repeat' split
  · exact discreet_reply _ (by simp [Msg.isRoster])
  · exact discreet_reply _ (by simp [Msg.isRoster])
  · exact discreet_go rfl
  · exact discreet_reply _ (by simp [Msg.isRoster])
  · exact discreet_reply _ (by simp [Msg.isRoster])
  · refine ⟨le_rfl, st.peers.keep_modify id fun _ => ⟨rfl, rfl, rfl, rfl, fun h => by cases h⟩, ?_⟩
    simp [State.go, Act.isNews, Act.isNotice]

lemma registerSession_discreet (id : PeerId) (s : SessionId) :
    Discreet st (st.registerSession id s) := by
  unfold State.registerSession
  repeat' split
  · refine ⟨Nat.le_add_right ..,
      st.peers.keep_modify id fun _ => ⟨rfl, rfl, rfl, rfl, fun h => by cases h⟩, ?_⟩
    simp [State.reply, State.go, Act.isNews, Act.isNotice, Msg.isRoster]
  · exact discreet_go rfl
  · exact discreet_go rfl

lemma removeScreenSub_discreet (v p : PeerId) (only : Option PcId) :
    Discreet st (st.removeScreenSub v p only) := by
  refine ⟨?_, ?_, by simp [State.removeScreenSub, State.go, Act.isNews, Act.isNotice]⟩
  · simp only [State.removeScreenSub, State.go]
    split_ifs <;> exact le_rfl
  · simp only [State.removeScreenSub, State.go]
    split_ifs
    · exact keep_detach v p
    · exact .refl _

lemma attachSub_discreet (v p : PeerId) (pc : PcId) (first : Bool) :
    Discreet st (st.attachSub v p pc first) := by
  unfold State.attachSub
  split
  · refine ⟨Nat.le_add_right ..,
      st.peers.keep_modify v fun _ => ⟨rfl, rfl, rfl, rfl, fun h => h⟩, ?_⟩
    cases first <;> rfl
  · exact discreet_go rfl

lemma dropSubscriber_discreet (v p : PeerId) (s : SessionId) (only : Option PcId) :
    Discreet st (st.dropSubscriber v p s only) := by
  unfold State.dropSubscriber
  split
  · exact discreet_go rfl
  · refine ⟨le_rfl, .refl _, ?_⟩
    dsimp only [State.go]
    split_ifs <;> rfl

lemma exec_discreet (h : exec ch a st = some r) (ha : a.makesNews = false) : Discreet st r := by
  cases a
  case addPeer | removePeer | setDisplayName | setState | endRoster | announceResume |
      firstVideoAnnounce => cases ha
  case closePublisher s =>
    obtain rfl | rfl := closePublisher_spec h
    · exact discreet_go rfl
    · exact ⟨le_rfl, .refl _, rfl⟩
  all_goals obtain rfl := Option.some.inj h
  case screenShareResume id t => exact screenShareResume_discreet id t
  case registerSession id s => exact registerSession_discreet id s
  case removeScreenSub v p only => exact removeScreenSub_discreet v p only
  case attachSub v p s pc first => exact attachSub_discreet v p pc first
  case detach v p => exact ⟨le_rfl, keep_detach v p, rfl⟩
  case dropSubscriber v p s only => exact dropSubscriber_discreet v p s only
  case endSubscribers s subs => exact discreet_go (by simp [Act.isNews, Act.isNotice])
  case endScreenShareSession s reason =>
    simp only [State.endScreenShareSession]
    split_ifs
    · exact discreet_go rfl
    · exact ⟨le_rfl, .refl _, by simp [State.go, Act.isNews, Act.isNotice]⟩
  case insertSubscriber v p s pc =>
    simp only [State.insertSubscriber]
    split_ifs
    · exact ⟨Nat.le_add_right .., .refl _, rfl⟩
    · exact ⟨le_rfl, .refl _, rfl⟩
  case cancel | send | presence | cancelTimer | firstVideoPublisher | delivered =>
    exact ⟨le_rfl, .refl _, rfl⟩
  -- the others change no entry, and reply or leave steps of their own
  all_goals
    simp only [State.close, State.subClosed, State.sendEncode, State.startScreenShareGrace,
      State.screenShareStart, State.screenShareStop, State.findSession,
      State.screenShareSubscribe, State.subscribePublisher, State.firstScreenVideoReady,
      State.firstVideoIdle]
    repeat' split
    all_goals first
    | exact discreet_go rfl
    | exact discreet_reply _ (by simp [Msg.isRoster])
    | exact ⟨le_rfl, .refl _, rfl⟩
    | exact ⟨Nat.le_add_right .., .refl _, rfl⟩

end Discreet

/-- No two peers have one client. -/
def Peers.Apart (ps : Peers) : Prop :=
  ∀ k k' e e', ps.get k = some e → ps.get k' = some e' → k ≠ k' → e.peer.clientId ≠ "" →
    e'.peer.clientId ≠ e.peer.clientId

/-! ### What is told -/

/-- What the room tells of an entry. -/
def IsInfo (ps : Peers) (p : PeerInfo) : Prop :=
  ∃ (st : State) (e : Entry), ps.get e.peer.id = some e ∧ p = st.info e

/-- A message to `v` is right about the room. -/
def Holds (ps : Peers) (v : PeerId) : Msg → Prop
  | .welcome id peers => id = v ∧ ∃ (st : State) (l : List Entry), peers = l.map st.info ∧
    (l.map fun e => e.peer.id).Nodup ∧ ∀ e, e ∈ l ↔ ps.get e.peer.id = some e ∧ e.peer.id ≠ v
  | .peerJoined p => IsInfo ps p ∧ p.screenSharing = false ∧ ∀ k e, ps.get k = some e → k ≠ p.id →
    p.clientId ≠ "" → e.peer.clientId ≠ p.clientId
  | .peerLeft id => ps.get id = none
  | .peerInfo p => IsInfo ps p
  | .peerState id selfMuted deafened =>
    ∀ e, ps.get id = some e → e.selfMuted = selfMuted ∧ e.deafened = deafened
  | _ => True

/-- What changed about `k` is told, where `T` has what `v` is told. -/
structure Told (ps ps' : Peers) (v : PeerId) (T : Msg → Prop) (k : PeerId) : Prop where
  gone : ∀ e, ps.get k = some e → ps'.get k = none → T (.peerLeft k)
  came : ps.get k = none → ∀ e, ps'.get k = some e → ∃ p, p.id = k ∧ T (.peerJoined p)
  peer : ∀ e e', ps.get k = some e → ps'.get k = some e' → e'.peer = e.peer
  displayName : ∀ e e', ps.get k = some e → ps'.get k = some e' → k ≠ v →
    e'.displayName = e.displayName ∨ ∃ p, p.id = k ∧ T (.peerInfo p)
  flags : ∀ e e', ps.get k = some e → ps'.get k = some e' → k ≠ v →
    (e'.selfMuted = e.selfMuted ∧ e'.deafened = e.deafened) ∨
      ∃ selfMuted deafened, T (.peerState k selfMuted deafened)
  session : ∀ e e', ps.get k = some e → ps'.get k = some e' →
    (e'.screenSession = none → e.screenSession = none) ∨ T (.screenShareEnded k)

section Told

variable {ps ps' : Peers} {v k id : PeerId} {T : Msg → Prop}

lemma told_of_rel (h : Option.Rel Entry.Keeps (ps.get k) (ps'.get k)) : Told ps ps' v T k := by
  generalize ho : ps.get k = o at h
  generalize ho' : ps'.get k = o' at h
  have hkeeps : ∀ e e', ps.get k = some e → ps'.get k = some e' → e.Keeps e' := by
    intro e e' he he'
    rw [ho] at he
    rw [ho'] at he'
    subst he he'
    cases h with
    | some h => exact h
  refine ⟨fun e he hn => ?_, fun hn e he => ?_, fun e e' he he' => (hkeeps e e' he he').peer,
    fun e e' he he' _ => .inl (hkeeps e e' he he').displayName,
    fun e e' he he' _ => .inl ⟨(hkeeps e e' he he').selfMuted, (hkeeps e e' he he').deafened⟩,
    fun e e' he he' => .inl (hkeeps e e' he he').session⟩
  · rw [ho] at he
    rw [ho'] at hn
    subst he hn
    cases h
  · rw [ho] at hn
    rw [ho'] at he
    subst hn he
    cases h

lemma told_of_eq (h : ps'.get k = ps.get k) : Told ps ps' v T k :=
  told_of_rel (h ▸ Peers.Keep.refl ps k)

lemma told_gone (h : ps'.get k = none) (hT : T (.peerLeft k)) : Told ps ps' v T k := by
  have hnone : ∀ e', ps'.get k ≠ some e' := by simp [h]
  exact ⟨fun _ _ _ => hT, fun _ e' he' => absurd he' (hnone e'),
    fun _ e' _ he' => absurd he' (hnone e'), fun _ e' _ he' => absurd he' (hnone e'),
    fun _ e' _ he' => absurd he' (hnone e'), fun _ e' _ he' => absurd he' (hnone e')⟩

lemma told_came {p : PeerInfo} (h : ps.get k = none) (hp : p.id = k) (hT : T (.peerJoined p)) :
    Told ps ps' v T k := by
  have hnone : ∀ e, ps.get k ≠ some e := by simp [h]
  exact ⟨fun e he => absurd he (hnone e), fun _ _ _ => ⟨p, hp, hT⟩,
    fun e _ he => absurd he (hnone e), fun e _ he => absurd he (hnone e),
    fun e _ he => absurd he (hnone e), fun e _ he => absurd he (hnone e)⟩

lemma told_remove (hT : T (.peerLeft id)) : Told ps (ps.remove id) v T k := by
  by_cases hk : k = id
  · subst hk
    exact told_gone (by rw [Peers.get_remove, if_pos rfl]) hT
  · exact told_of_eq (by rw [Peers.get_remove, if_neg hk])

lemma told_modify {f : Entry → Entry} {e : Entry} (he : ps.get id = some e)
    (hname : (f e).displayName = e.displayName ∨ id = v ∨ ∃ p, p.id = id ∧ T (.peerInfo p))
    (hflags : ((f e).selfMuted = e.selfMuted ∧ (f e).deafened = e.deafened) ∨ id = v ∨
      ∃ selfMuted deafened, T (.peerState id selfMuted deafened))
    (hsession : ((f e).screenSession = none → e.screenSession = none) ∨
      T (.screenShareEnded id)) : Told ps (ps.modify id f) v T k := by
  by_cases hk : k = id
  · subst hk
    have hget : (ps.modify k f).get k = some { f e with peer := e.peer } := by
      rw [Peers.get_modify, if_pos rfl, he]
      rfl
    have hboth : ∀ x x', ps.get k = some x → (ps.modify k f).get k = some x' →
        x = e ∧ x' = { f e with peer := e.peer } := by
      intro x x' hx hx'
      rw [he] at hx
      rw [hget] at hx'
      exact ⟨(Option.some.inj hx).symm, (Option.some.inj hx').symm⟩
    refine ⟨fun _ _ hn => ?_, fun hn => ?_, fun x x' hx hx' => ?_, fun x x' hx hx' hkv => ?_,
      fun x x' hx hx' hkv => ?_, fun x x' hx hx' => ?_⟩
    · -- the entry is there before and after
      rw [hget] at hn
      cases hn
    · rw [he] at hn
      cases hn
    · obtain ⟨rfl, rfl⟩ := hboth x x' hx hx'
      rfl
    · obtain ⟨rfl, rfl⟩ := hboth x x' hx hx'
      exact hname.imp_right fun h => h.resolve_left hkv
    · obtain ⟨rfl, rfl⟩ := hboth x x' hx hx'
      exact hflags.imp_right fun h => h.resolve_left hkv
    · obtain ⟨rfl, rfl⟩ := hboth x x' hx hx'
      exact hsession
  · -- another peer's entry is as it was
    exact told_of_eq (by rw [Peers.get_modify, if_neg hk])

end Told

/-- What the steps ahead tell `v`. -/
def sentTo (next : List Act) (v : PeerId) (m : Msg) : Prop := ∃ seq, .send seq v m ∈ next

/-- What a step tells, and what it leaves untold. -/
structure Notifies (st : State) (a : Act) (r : Effect) : Prop where
  clock : st.clock ≤ r.st.clock
  numbered : ∀ seq v m, .send seq v m ∈ r.next → m.isRoster = true →
    st.clock ≤ seq ∧ seq < r.st.clock
  cancels : ∀ id, .cancel id ∈ r.next → (st.peers.get id).isSome ∧ r.st.peers.get id = none
  holds : ∀ seq v m, .send seq v m ∈ r.next → m.isRoster = true → Holds r.st.peers v m
  announces : ∀ seq v p hasSystemAudio videoCodec mode,
    .send seq v (.screenShareAvailable p hasSystemAudio videoCodec mode) ∈ r.next →
      a.announces = some p
  apart : st.peers.Apart → r.st.peers.Apart
  told : ∀ v, (r.st.peers.get v).isSome →
    (∃ peers, sentTo r.next v (.welcome v peers)) ∨
      (st.peers.get v).isSome ∧ ∀ k, Told st.peers r.st.peers v (sentTo r.next v) k

section Step

variable {ch : Choice} {a : Act} {st st' : State} {r : Effect} {ord : Order}

lemma Peers.Keep.isSome {ps ps' : Peers} (h : ps.Keep ps') (k : PeerId) :
    (ps'.get k).isSome = (ps.get k).isSome := by
  have hk := h k
  generalize ps.get k = o at hk
  generalize ps'.get k = o' at hk
  cases hk <;> rfl

lemma Peers.Apart.mono {ps ps' : Peers} (h : ps.Apart)
    (hold : ∀ k e', ps'.get k = some e' → ∃ e, ps.get k = some e ∧ e'.peer = e.peer) :
    ps'.Apart := by
  intro k k' e e' he he' hne hc
  obtain ⟨e₀, he₀, hp⟩ := hold k e he
  obtain ⟨e₀', he₀', hp'⟩ := hold k' e' he'
  rw [hp] at hc ⊢
  rw [hp']
  exact h k k' e₀ e₀' he₀ he₀' hne hc

lemma Peers.Keep.apart {ps ps' : Peers} (h : ps.Keep ps') (hps : ps.Apart) : ps'.Apart := by
  refine hps.mono fun k e' he' => ?_
  have hk := h k
  rw [he'] at hk
  generalize ps.get k = o at hk
  cases hk with
  | some hkeeps => exact ⟨_, rfl, hkeeps.peer⟩

lemma Peers.Apart.remove {ps : Peers} (h : ps.Apart) (id : PeerId) : (ps.remove id).Apart := by
  refine h.mono fun k e he => ⟨e, ?_, rfl⟩
  rw [Peers.get_remove] at he
  split_ifs at he
  exact he

lemma Peers.Apart.modify {ps : Peers} (h : ps.Apart) (id : PeerId) (f : Entry → Entry) :
    (ps.modify id f).Apart := by
  refine h.mono fun k e' he' => ?_
  rw [Peers.get_modify] at he'
  split_ifs at he' with hk
  · subst hk
    obtain ⟨e, he, rfl⟩ := Option.map_eq_some_iff.mp he'
    exact ⟨e, he, rfl⟩
  · exact ⟨e', he', rfl⟩

lemma Notifies.quiet (h : Discreet st r) : Notifies st a r := by
  have hnone : ∀ b ∈ r.next, b.isNotice = false := fun b hb => isNotice_of_isNews (h.next_eq hb)
  refine ⟨h.clock, fun seq v m hin hm => ?_, fun id hin => ?_, fun seq v m hin hm => ?_,
    fun seq v p _ _ _ hin => ?_, h.peers.apart,
    fun v hv => .inr ⟨?_, fun k => told_of_rel (h.peers k)⟩⟩
  · exact absurd hm (by rw [show m.isRoster = false from hnone _ hin]; decide)
  · cases hnone _ hin
  · exact absurd hm (by rw [show m.isRoster = false from hnone _ hin]; decide)
  · cases hnone _ hin
  · rw [h.peers.isSome] at hv
    exact hv

@[simp] lemma send_mem_broadcast {seq seq' : ℕ} {ps : List PeerId} {v : PeerId} {m m' : Msg} :
    .send seq v m ∈ broadcast seq' ps m' ↔ seq = seq' ∧ v ∈ ps ∧ m = m' := by
  simp only [broadcast, List.mem_map, Act.send.injEq]
  constructor
  · rintro ⟨x, hx, rfl, rfl, rfl⟩
    exact ⟨rfl, hx, rfl⟩
  · rintro ⟨rfl, hx, rfl⟩
    exact ⟨v, hx, rfl, rfl, rfl⟩

@[simp] lemma cancel_notMem_broadcast {id : PeerId} {seq : ℕ} {ps : List PeerId} {m : Msg} :
    .cancel id ∉ broadcast seq ps m := by simp [broadcast]

lemma isInfo_of_get {ps : Peers} {e : Entry} (st : State) (h : ps.get e.peer.id = some e) :
    IsInfo ps (st.info e) := ⟨st, e, h, rfl⟩

lemma Notifies.of_sends (ps : Peers) (n : ℕ) (hp : r.st.peers = ps)
    (hclock : r.st.clock = st.clock + n)
    (hsend : ∀ seq v m, .send seq v m ∈ r.next → m.isRoster = true →
      (st.clock ≤ seq ∧ seq < st.clock + n) ∧ Holds ps v m ∧
        ∀ p hasSystemAudio videoCodec mode,
          m = .screenShareAvailable p hasSystemAudio videoCodec mode → a.announces = some p)
    (hcancel : ∀ id, .cancel id ∈ r.next → (st.peers.get id).isSome ∧ ps.get id = none)
    (hapart : st.peers.Apart → ps.Apart)
    (htold : ∀ v, (ps.get v).isSome → (∃ peers, sentTo r.next v (.welcome v peers)) ∨
      (st.peers.get v).isSome ∧ ∀ k, Told st.peers ps v (sentTo r.next v) k) :
    Notifies st a r where
  clock := hclock ▸ Nat.le_add_right ..
  numbered seq v m h hm := by
    rw [hclock]
    exact (hsend seq v m h hm).1
  cancels := by
    rw [hp]
    exact hcancel
  holds seq v m h hm := by
    rw [hp]
    exact (hsend seq v m h hm).2.1
  announces seq v p _ _ _ h := (hsend _ _ _ h rfl).2.2 p _ _ _ rfl
  apart := by
    rw [hp]
    exact hapart
  told := by
    rw [hp]
    exact htold

lemma Notifies.one (ps : Peers) (dest : List PeerId) (m₀ : Msg) (hp : r.st.peers = ps)
    (hclock : r.st.clock = st.clock + 1)
    (hsend : ∀ seq v m, .send seq v m ∈ r.next ↔ seq = st.clock ∧ v ∈ dest ∧ m = m₀)
    (hcancel : ∀ id, .cancel id ∈ r.next → (st.peers.get id).isSome ∧ ps.get id = none)
    (hholds : ∀ v, Holds ps v m₀)
    (hshare : ∀ p hasSystemAudio videoCodec mode,
      m₀ ≠ .screenShareAvailable p hasSystemAudio videoCodec mode)
    (hapart : st.peers.Apart → ps.Apart)
    (htold : ∀ v, (ps.get v).isSome → (st.peers.get v).isSome ∧
      ∀ k T, (v ∈ dest → T m₀) → Told st.peers ps v T k) : Notifies st a r := by
  refine .of_sends ps 1 hp hclock (fun seq v m h _ => ?_) hcancel hapart fun v hv => ?_
  · obtain ⟨rfl, -, rfl⟩ := (hsend seq v m).mp h
    exact ⟨⟨le_rfl, Nat.lt_succ_self _⟩, hholds v, fun p _ _ _ hm => absurd hm (hshare p _ _ _)⟩
  · obtain ⟨hold, htold⟩ := htold v hv
    exact .inr ⟨hold, fun k => htold k _ fun hdest => ⟨_, (hsend ..).mpr ⟨rfl, hdest, rfl⟩⟩⟩

lemma removePeer_notifies (id : PeerId) : Notifies st a (st.removePeer ord id) := by
  unfold State.removePeer
  split
  · exact .quiet (discreet_go rfl)
  next e he =>
  refine .one (st.peers.remove id) (State.all { st with peers := st.peers.remove id } ord)
    (.peerLeft id) rfl rfl ?_ ?_ ?_ (by simp) (fun h => h.remove id) ?_
  · simp [State.go]
  · intro k hk
    obtain rfl : k = id := by simpa [State.go] using hk
    exact ⟨by rw [he]; rfl, by rw [Peers.get_remove, if_pos rfl]⟩
  · exact fun v => by rw [Holds, Peers.get_remove, if_pos rfl]
  · intro v hv
    refine ⟨?_, fun k T hT => told_remove (hT ((State.mem_all _).mpr hv))⟩
    rw [Peers.get_remove] at hv
    split_ifs at hv
    · cases hv
    · exact hv

lemma isInfo_modify {ps : Peers} {id : PeerId} {e : Entry} (he : ps.get id = some e)
    (f : Entry → Entry) (hf : (f e).peer = e.peer) (st : State) :
    IsInfo (ps.modify id f) (st.info (f e)) := by
  have heta : ({ f e with peer := e.peer } : Entry) = f e := by rw [← hf]
  refine isInfo_of_get st ?_
  rw [hf, ps.id_of_get he, Peers.get_modify, if_pos rfl, he]
  exact congrArg some heta

lemma setDisplayName_notifies (id : PeerId) (name : String) :
    Notifies st a (st.setDisplayName ord id name) := by
  unfold State.setDisplayName
  split
  · exact .quiet (discreet_go rfl)
  next e he =>
  have hid := st.peers.id_of_get he
  refine .one (st.peers.modify id ({ · with displayName := name }))
    (State.others { st with peers := st.peers.modify id ({ · with displayName := name }) } ord id)
    (.peerInfo (st.info { e with displayName := name })) rfl rfl ?_ ?_
    (fun _ => isInfo_modify he ({ · with displayName := name }) rfl st) (by simp)
    (fun h => h.modify id _) fun v hv => ?_
  · simp [State.go]
  · simp [State.go]
  · refine ⟨by rwa [Peers.get_modify_isSome] at hv, fun k T hT => ?_⟩
    refine told_modify he (.inr ?_) (.inl ⟨rfl, rfl⟩) (.inl fun h => h)
    by_cases hv' : id = v
    · exact .inl hv'
    · exact .inr ⟨_, hid, hT ((State.mem_others _).mpr ⟨hv, Ne.symm hv'⟩)⟩

lemma setState_notifies (id : PeerId) (selfMuted deafened : Bool) :
    Notifies st a (st.setState ord id selfMuted deafened) := by
  unfold State.setState
  split
  · exact .quiet (discreet_go rfl)
  next e he =>
  let f (e : Entry) : Entry := { e with selfMuted := selfMuted, deafened := deafened }
  refine .one (st.peers.modify id f) (State.others { st with peers := st.peers.modify id f } ord id)
    (.peerState id selfMuted deafened) rfl rfl ?_ ?_ (fun _ x hx => ?_) (by simp)
    (fun h => h.modify id _) fun v hv => ?_
  · simp [State.go, f]
  · simp [State.go]
  · rw [Peers.get_modify, if_pos rfl, he] at hx
    obtain rfl := Option.some.inj hx
    exact ⟨rfl, rfl⟩
  · refine ⟨by rwa [Peers.get_modify_isSome] at hv, fun k T hT => ?_⟩
    refine told_modify he (.inl rfl) (.inr ?_) (.inl fun h => h)
    by_cases hv' : id = v
    · exact .inl hv'
    · exact .inr ⟨_, _, hT ((State.mem_others _).mpr ⟨hv, Ne.symm hv'⟩)⟩

lemma Notifies.again {n : ℕ} (hp : r.st.peers = st.peers) (hclock : r.st.clock = st.clock + n)
    (hsend : ∀ seq v m, .send seq v m ∈ r.next → m.isRoster = true →
      (st.clock ≤ seq ∧ seq < st.clock + n) ∧ Holds st.peers v m ∧
        ∀ p hasSystemAudio videoCodec mode,
          m = .screenShareAvailable p hasSystemAudio videoCodec mode → a.announces = some p)
    (hcancel : ∀ id, .cancel id ∉ r.next) : Notifies st a r :=
  .of_sends st.peers n hp hclock hsend (fun id h => absurd h (hcancel id)) (fun h => h)
    fun _ hv => .inr ⟨hv, fun _ => told_of_eq rfl⟩

lemma announceResume_notifies (id : PeerId) (s : SessionId) (old : PeerId) :
    Notifies st (.announceResume id s old) (st.announceResume ord id s old) := by
  unfold State.announceResume
  split
  · exact .quiet (discreet_go rfl)
  next e he =>
  have hinfo : IsInfo st.peers (st.info e) := isInfo_of_get st (by rwa [st.peers.id_of_get he])
  refine .again (n := 4) rfl rfl (fun seq v m h hm => ?_) (by simp [State.go])
  have hcases : (seq = st.clock ∧ m = .peerInfo (st.info e)) ∨
      (seq = st.clock + 1 ∧ m = .screenShareEnded old) ∨
      (seq = st.clock + 2 ∧ m = st.availableMsg s id) ∨
      (seq = st.clock + 3 ∧ m = .screenShareStarted (st.sessions s).token) := by
    simp [State.go] at h
    tauto
  obtain ⟨rfl, rfl⟩ | ⟨rfl, rfl⟩ | ⟨rfl, rfl⟩ | ⟨rfl, rfl⟩ := hcases
  · exact ⟨by omega, hinfo, by simp⟩
  · exact ⟨by omega, trivial, by simp⟩
  · refine ⟨by omega, trivial, fun p _ _ _ hp => ?_⟩
    rw [State.availableMsg] at hp
    injection hp with hp
    exact congrArg some hp
  · cases hm

lemma firstVideoAnnounce_notifies (s : SessionId) (p : PeerId) :
    Notifies st (.firstVideoAnnounce s p) (st.firstVideoAnnounce ord s p) := by
  unfold State.firstVideoAnnounce
  split
  · exact .quiet (discreet_go rfl)
  next e he =>
  have hinfo : IsInfo st.peers (st.info e) := isInfo_of_get st (by rwa [st.peers.id_of_get he])
  refine .again (n := 2) rfl rfl (fun seq v m h hm => ?_) (by simp [State.go])
  have hcases : (seq = st.clock ∧ m = .peerInfo (st.info e)) ∨
      (seq = st.clock + 1 ∧ m = st.availableMsg s p) := by
    simp [State.go] at h
    tauto
  obtain ⟨rfl, rfl⟩ | ⟨rfl, rfl⟩ := hcases
  · exact ⟨by omega, hinfo, by simp⟩
  · refine ⟨by omega, trivial, fun q _ _ _ hq => ?_⟩
    rw [State.availableMsg] at hq
    injection hq with hq
    exact congrArg some hq

lemma endRoster_notifies (s : SessionId) (p : PeerId) : Notifies st a (st.endRoster ord s p) := by
  let g (e : Entry) : Entry := if e.screenSession = some s then { e with screenSession := none } else e
  have hg : ∀ e, (g e).displayName = e.displayName ∧ (g e).selfMuted = e.selfMuted ∧
      (g e).deafened = e.deafened := fun e => by
    dsimp only [g]
    split_ifs <;> exact ⟨rfl, rfl, rfl⟩
  have htold (next : List Act) (hnext : ∀ v, ((st.peers.modify p g).get v).isSome →
      sentTo next v (.screenShareEnded p)) : ∀ v, ((st.peers.modify p g).get v).isSome →
      (st.peers.get v).isSome ∧ ∀ k, Told st.peers (st.peers.modify p g) v (sentTo next v) k := by
    intro v hv
    refine ⟨by rwa [Peers.get_modify_isSome] at hv, fun k => ?_⟩
    cases he : st.peers.get p with
    | none =>
      refine told_of_eq ?_
      rw [Peers.get_modify]
      split_ifs with hk
      · rw [hk, he]
        rfl
      · rfl
    | some e =>
      obtain ⟨hname, hflags⟩ := hg e
      exact told_modify he (.inl hname) (.inl hflags) (.inr (hnext v hv))
  unfold State.endRoster
  dsimp only
  split
  · -- the publisher is there, and its own info goes out as well
    next e he =>
    have hinfo : IsInfo (st.peers.modify p g) (st.info e) :=
      isInfo_of_get st (by rwa [Peers.id_of_get _ he])
    refine .of_sends (st.peers.modify p g) 2 rfl rfl (fun seq v m h hm => ?_) (fun id h => ?_)
      (fun h => h.modify p g) fun v hv => .inr (htold _ (fun v hv => ⟨st.clock, ?_⟩) v hv)
    · have hcases : (seq = st.clock ∧ m = .screenShareEnded p) ∨
          (seq = st.clock + 1 ∧ m = .peerInfo (st.info e)) := by
        obtain h | h := List.mem_append.mp h
        · obtain ⟨op, -, h⟩ := List.mem_flatMap.mp h
          obtain h | h := List.mem_cons.mp h
          · injection h with hseq _ hm
            exact .inl ⟨hseq, hm⟩
          · split_ifs at h
            · injection List.mem_singleton.mp h with hseq _ hm
              exact .inr ⟨hseq, hm⟩
            · cases h
        · cases List.mem_singleton.mp h
      obtain ⟨rfl, rfl⟩ | ⟨rfl, rfl⟩ := hcases
      · exact ⟨by omega, trivial, by simp⟩
      · exact ⟨by omega, hinfo, by simp⟩
    · obtain h | h := List.mem_append.mp h
      · obtain ⟨op, -, h⟩ := List.mem_flatMap.mp h
        split_ifs at h <;> simp at h
      · cases List.mem_singleton.mp h
    · refine List.mem_append_left _ (List.mem_flatMap.mpr ⟨v, ?_, List.mem_cons_self⟩)
      exact (State.mem_all _).mpr hv
  · -- it has left
    refine .of_sends (st.peers.modify p g) 2 rfl rfl (fun seq v m h hm => ?_) (by simp [State.go])
      (fun h => h.modify p g) fun v hv => .inr (htold _ (fun v hv => ⟨st.clock, ?_⟩) v hv)
    · obtain ⟨rfl, -, rfl⟩ := send_mem_broadcast.mp h
      exact ⟨by omega, trivial, by simp⟩
    · exact send_mem_broadcast.mpr ⟨rfl, (State.mem_all _).mpr hv, rfl⟩

/-! ### Joining -/

lemma Peers.Apart.insert {ps : Peers} {e : Entry} (h : ps.Apart)
    (hnew : ∀ k x, ps.get k = some x → k ≠ e.peer.id → e.peer.clientId ≠ "" →
      x.peer.clientId ≠ e.peer.clientId) : (ps.insert e).Apart := by
  intro k k' x x' hx hx' hne hc
  rw [Peers.get_insert] at hx hx'
  split_ifs at hx hx' with hk hk' hk'
  · exact absurd (hk.trans hk'.symm) hne
  · obtain rfl := Option.some.inj hx
    exact hnew k' x' hx' hk' hc
  · obtain rfl := Option.some.inj hx'
    exact fun heq => hnew k x hx hk (heq ▸ hc) heq.symm
  · exact h k k' x x' hx hx' hne hc

lemma staying_apart {p : Peer} {k : PeerId} {x : Entry}
    (hx : (st.staying ord p).peers.get k = some x) (hp : p.clientId ≠ "") :
    x.peer.clientId ≠ p.clientId := by
  intro heq
  rw [get_staying] at hx
  split_ifs at hx with hgone
  refine hgone (List.mem_map.mpr ⟨x, ?_, st.peers.id_of_get hx⟩)
  rw [State.evicted, if_neg hp]
  refine List.mem_filter.mpr ⟨(ord.mem_list).mpr (st.peers.mem_values.mpr ?_), by simpa using heq⟩
  rwa [st.peers.id_of_get hx]

lemma Peers.Apart.staying (h : st.peers.Apart) (p : Peer) : (st.staying ord p).peers.Apart := by
  refine h.mono fun k e he => ⟨e, ?_, rfl⟩
  rw [get_staying] at he
  split_ifs at he
  exact he

lemma send_mem_addPeer {p : Peer} {name : String} (h : st.addPeer ord p name = some r) {seq : ℕ}
    {v : PeerId} {m : Msg} : .send seq v m ∈ r.next ↔
      (∃ x ∈ (st.evicted ord p).zipIdx, seq = st.clock + x.2 ∧ v ∈ (st.staying ord p).all ord ∧
        m = .peerLeft x.1.peer.id) ∨
      (seq = st.clock + (st.evicted ord p).length ∧ v = p.id ∧
        m = .welcome p.id ((ord.list (st.staying ord p).peers.values).map st.info)) ∨
      (seq = st.clock + (st.evicted ord p).length + 1 ∧ v ∈ (st.staying ord p).all ord ∧
        m = .peerJoined (st.info (State.newEntry p name))) := by
  unfold State.addPeer at h
  split at h
  · cases h
  obtain rfl := Option.some.inj h
  simp [State.go, State.dropEvicted]

lemma cancel_mem_addPeer {p : Peer} {name : String} (h : st.addPeer ord p name = some r)
    {id : PeerId} (hid : .cancel id ∈ r.next) : ∃ e ∈ st.evicted ord p, id = e.peer.id := by
  unfold State.addPeer at h
  split at h
  · cases h
  obtain rfl := Option.some.inj h
  obtain ⟨e, i, hx, rfl⟩ : ∃ e i, (e, i) ∈ (st.evicted ord p).zipIdx ∧ id = e.peer.id := by
    simpa [State.go, State.dropEvicted] using hid
  exact ⟨e, List.fst_mem_of_mem_zipIdx hx, rfl⟩

/-- A peer that joins takes the place of the others of its client. -/
lemma addPeer_notifies {p : Peer} {name : String} (hfresh : st.peers.get p.id = none)
    (h : st.addPeer ord p name = some r) : Notifies st a r := by
  have hget (k : PeerId) : ((st.staying ord p).peers.insert (State.newEntry p name)).get k =
      if k = p.id then some (State.newEntry p name) else (st.staying ord p).peers.get k :=
    Peers.get_insert ..
  have hrest : (st.staying ord p).peers.get p.id = none := by
    rw [get_staying, hfresh]
    exact ite_self _
  have hgone : ∀ e ∈ st.evicted ord p, (st.peers.get e.peer.id).isSome ∧
      ((st.staying ord p).peers.insert (State.newEntry p name)).get e.peer.id = none := by
    intro e he
    obtain ⟨-, hold, -⟩ := mem_evicted he
    have hne : e.peer.id ≠ p.id := by
      intro heq
      rw [heq, hfresh] at hold
      cases hold
    rw [hget, if_neg hne, get_staying, if_pos (List.mem_map_of_mem he), hold]
    exact ⟨rfl, rfl⟩
  obtain ⟨hpeers, hclock⟩ :
      r.st.peers = (st.staying ord p).peers.insert (State.newEntry p name) ∧
        r.st.clock = st.clock + ((st.evicted ord p).length + 2) := by
    unfold State.addPeer at h
    split at h
    · cases h
    obtain rfl := Option.some.inj h
    exact ⟨rfl, rfl⟩
  refine .of_sends _ _ hpeers hclock (fun seq v m hmem hm => ?_) (fun id hmem => ?_)
    (fun h => (h.staying p).insert fun k x hx _ => staying_apart hx) fun v hv => ?_
  · -- one who was replaced, the new peer's welcome, or its joining
    obtain ⟨x, hx, rfl, -, rfl⟩ | ⟨rfl, rfl, rfl⟩ | ⟨rfl, -, rfl⟩ := (send_mem_addPeer h).mp hmem
    · have hlt : x.2 < (st.evicted ord p).length := by simpa using List.snd_lt_of_mem_zipIdx hx
      exact ⟨by omega, (hgone x.1 (List.fst_mem_of_mem_zipIdx hx)).2, by simp⟩
    · refine ⟨by omega, ⟨rfl, st, _, rfl, ?_, fun e => ?_⟩, by simp⟩
      · exact ((ord.perm _).map _).nodup_iff.mpr (st.staying ord p).peers.nodup_ids
      · rw [ord.mem_list, Peers.mem_values, hget]
        split_ifs with he
        · simp [he, hrest]
        · simp [he]
    · refine ⟨by omega, ⟨isInfo_of_get st ?_, rfl, fun k e he hk hc => ?_⟩, by simp⟩
      · exact (hget p.id).trans (if_pos rfl)
      · rw [hget, if_neg (show k ≠ p.id from hk)] at he
        exact staying_apart he hc
  · obtain ⟨e, he, rfl⟩ := cancel_mem_addPeer h hmem
    exact hgone e he
  · -- the new peer begins with its welcome
    by_cases hvp : v = p.id
    · subst hvp
      exact .inl ⟨_, _, (send_mem_addPeer h).mpr (.inr (.inl ⟨rfl, rfl, rfl⟩))⟩
    · rw [hget, if_neg hvp] at hv
      have hothers : v ∈ (st.staying ord p).all ord := (State.mem_all _).mpr hv
      refine .inr ⟨?_, fun k => ?_⟩
      · rw [get_staying] at hv
        split_ifs at hv
        · cases hv
        · exact hv
      by_cases hk : k = p.id
      · -- the others hear that the new peer has joined
        refine told_came (p := st.info (State.newEntry p name)) (hk ▸ hfresh) hk.symm ?_
        exact ⟨_, (send_mem_addPeer h).mpr (.inr (.inr ⟨rfl, hothers, rfl⟩))⟩
      by_cases hkgone : k ∈ (st.evicted ord p).map (·.peer.id)
      · -- and that whoever it replaced has left
        obtain ⟨e, he, rfl⟩ := List.mem_map.mp hkgone
        obtain ⟨i, hi⟩ := List.mem_iff_getElem?.mp he
        have hx : (e, i) ∈ (st.evicted ord p).zipIdx := List.mk_mem_zipIdx_iff_getElem?.mpr hi
        exact told_gone (hgone e he).2
          ⟨_, (send_mem_addPeer h).mpr (.inl ⟨(e, i), hx, rfl, hothers, rfl⟩)⟩
      · -- nothing else has changed
        exact told_of_eq (by rw [hget, if_neg hk, get_staying, if_neg hkgone])

/-- **Every step tells what it changed.** -/
theorem exec_notifies (hfresh : ∀ p name, a = .addPeer p name → st.peers.get p.id = none)
    (h : exec ch a st = some r) : Notifies st a r := by
  cases a with
  | addPeer p name => exact addPeer_notifies (hfresh p name rfl) h
  | removePeer id =>
    obtain rfl := Option.some.inj h
    exact removePeer_notifies id
  | setDisplayName id name =>
    obtain rfl := Option.some.inj h
    exact setDisplayName_notifies id name
  | setState id selfMuted deafened =>
    obtain rfl := Option.some.inj h
    exact setState_notifies id selfMuted deafened
  | endRoster s p =>
    obtain rfl := Option.some.inj h
    exact endRoster_notifies s p
  | announceResume id s old =>
    obtain rfl := Option.some.inj h
    exact announceResume_notifies id s old
  | firstVideoAnnounce s p =>
    obtain rfl := Option.some.inj h
    exact firstVideoAnnounce_notifies s p
  | _ => exact .quiet (exec_discreet h rfl)

end Step

end Room

end VoiceHub.Sfu
