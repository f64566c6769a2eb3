import Mathlib
import VoiceHub.Sfu.Room.Queues
import VoiceHub.Sfu.Room.Subscribers

/-!
Pausing a publisher's encoder, and resuming it.

Whether a session is idle is decided under its lock, and the event that says so is queued
later. A publisher starves its viewers when the last event it has is a pause, some viewer of
its session stays, and no step that will queue a resume is pending; at each place where two
such steps can cross, the one that comes last must not leave it so.
-/

namespace VoiceHub.Sfu.Room

open VoiceHub.Lib

def encodeOf : Msg → Option Encode
  | .screenShareEncodePause => some .pause
  | .screenShareEncodeResume => some .resume
  | _ => none

/-- The last encode event of a queue after its first `n` messages. -/
def lastEvent (log : List Msg) (n : ℕ) : Option Encode := ((log.drop n).filterMap encodeOf).getLast?

/-- The last encode event queued to `p` since it took ownership of a session. -/
def State.lastEncode (st : State) (p : PeerId) : Option Encode :=
  lastEvent (st.outbox p).log (st.tookAt p)

def State.paused (st : State) (p : PeerId) : Bool := st.lastEncode p = some .pause

lemma State.paused_iff {st : State} {p : PeerId} :
    st.paused p = true ↔ lastEvent (st.outbox p).log (st.tookAt p) = some .pause :=
  decide_eq_true_iff

lemma lastEvent_append {log : List Msg} {m : Msg} {n : ℕ} {e : Encode}
    (h : lastEvent (log ++ [m]) n = some e) :
    encodeOf m = some e ∨ encodeOf m = none ∧ lastEvent log n = some e := by
  unfold lastEvent at h ⊢
  rw [List.drop_append, List.filterMap_append] at h
  rcases hm : encodeOf m with _ | e'
  · have hnil : (List.drop (n - log.length) [m]).filterMap encodeOf = [] :=
      List.filterMap_eq_nil_iff.mpr fun b hb => by
        rw [List.mem_singleton.mp (List.mem_of_mem_drop hb)]; exact hm
    rw [hnil, List.append_nil] at h
    exact .inr ⟨rfl, h⟩
  · left
    by_cases hn : n ≤ log.length
    · rw [Nat.sub_eq_zero_of_le hn, List.drop_zero, List.filterMap_cons_some hm,
        List.filterMap_nil, List.getLast?_append, List.getLast?_singleton, Option.some_or] at h
      exact h
    · rw [List.drop_eq_nil_of_le (by omega), List.drop_eq_nil_of_le (by simp; omega)] at h
      cases h

/-- The steps that take the subscription `x` of `v` out of session `s`. -/
def Act.leaves (st : State) (s : SessionId) (v : PeerId) (x : PcId) : Act → Bool
  | .close y => y = x ∧ st.pcClosed x = false
  | .subClosed y => y = x
  | .removeScreenSub v' p only =>
    v' = v ∧ p = (st.sessions s).publisherId ∧ (only = none ∨ only = some x)
  | .dropSubscriber v' _ s' only => v' = v ∧ s' = s ∧ (only = none ∨ only = some x)
  | _ => false

/-- The viewers of `p`'s session that no pending step takes out of it. -/
def viewers (c : Config) (p : PeerId) : List (PeerId × PcId) :=
  match c.st.owned p with
  | none => []
  | some s =>
    if (c.st.sessions s).closed then []
    else
      ((c.st.sessions s).subscribers.entries.map fun e => (e.1, e.2)).filter fun e =>
        !c.work.any (·.leaves c.st s e.1 e.2)

/-- The steps that queue a resume to `p`, sooner or later. -/
def Act.resumes (p : PeerId) : Act → Bool
  | .attachSub _ p' _ _ first => p' = p ∧ first = true
  | .sendEncode p' event => p' = p ∧ event = .resume
  | .send _ p' m => p' = p ∧ m = .screenShareEncodeResume
  | _ => false

structure Starving (c : Config) (p : PeerId) : Prop where
  paused : c.st.paused p = true
  viewers : ∃ e, e ∈ viewers c p
  alone : ∀ a ∈ c.work, a.resumes p = false

lemma mem_viewers {c : Config} {p v : PeerId} {x : PcId} :
    (v, x) ∈ viewers c p ↔ ∃ s, c.st.owned p = some s ∧ (c.st.sessions s).closed = false ∧
      c.st.subscriber s v = some x ∧ ∀ a ∈ c.work, a.leaves c.st s v x = false := by
  unfold viewers
  rcases c.st.owned p with _ | s
  · simp
  · simp only [Option.some.injEq, exists_eq_left']
    split_ifs with hc
    · simp [hc]
    · rw [List.mem_filter, List.mem_map]
      simp only [hc, true_and, Bool.not_eq_true', List.any_eq_false, Bool.not_eq_true]
      refine and_congr ?_ Iff.rfl
      constructor
      · rintro ⟨⟨v', x'⟩, he, ⟨⟩⟩
        exact AList.mem_lookup_iff.mpr he
      · intro h
        exact ⟨⟨v, x⟩, AList.mem_lookup_iff.mp h, rfl⟩

/-! ### What a step does to it -/

section Step

variable {ch : Choice} {a : Act} {st st' : State} {r : Effect} {p v : PeerId} {s : SessionId}
  {x : PcId}

lemma Own.owner_old {k k' : Core} {next : List Act} (h : Own k a k' next)
    (hreg : ∀ id s, a ≠ .registerSession id s) (hres : ∀ id t, a ≠ .screenShareResume id t)
    (hp : k'.owner p = some (some s)) : k.owner p = some (some s) := by
  cases h with
  | register => exact absurd rfl (hreg _ _)
  | claim => exact absurd rfl (hres _ _)
  | join =>
    simp only at hp
    split_ifs at hp
    · cases hp
    · exact hp
  | leave =>
    simp only [Function.update_apply] at hp
    split_ifs at hp
    exact hp
  | clear =>
    simp only at hp
    split_ifs at hp
    · cases hp
    · exact hp
  | _ => exact hp

lemma exec_tookAt (h : exec ch a st = some r) (hreg : ∀ id s, a ≠ .registerSession id s)
    (hres : ∀ id t, a ≠ .screenShareResume id t) : r.st.tookAt = st.tookAt := by
  by_cases ha : a.moves = false
  · exact (exec_still h ha).tookAt
  cases a
  case registerSession => exact absurd rfl (hreg _ _)
  case screenShareResume => exact absurd rfl (hres _ _)
  case closePublisher s => obtain rfl | rfl := closePublisher_spec h <;> rfl
  case cancel | send | close | delivered | screenShareStart | subscribePublisher =>
    obtain rfl := Option.some.inj h
    first
    | rfl
    | simp only [State.close, State.screenShareStart, State.subscribePublisher]
      repeat' split
      all_goals rfl
  all_goals exact absurd rfl ha

/-- A step gives `id` a session, and starts to count what is queued to it afresh. -/
structure TakesOver (st st' : State) (id : PeerId) : Prop where
  took : st'.tookAt = Function.update st.tookAt id (st.outbox id).log.length
  outbox : st'.outbox = st.outbox
  others : ∀ q, q ≠ id → st'.owned q = st.owned q

lemma takesOver_of {id : PeerId} {f : Entry → Entry} (hp : st'.peers = st.peers.modify id f)
    (ht : st'.tookAt = Function.update st.tookAt id (st.outbox id).log.length)
    (ho : st'.outbox = st.outbox) : TakesOver st st' id where
  took := ht
  outbox := ho
  others q hq := by rw [State.owned, hp, Peers.get_modify, if_neg hq, State.owned]

lemma registerSession_takesOver (id : PeerId) (s : SessionId) :
    (st.registerSession id s).st = st ∨ TakesOver st (st.registerSession id s).st id := by
  unfold State.registerSession
  split
  · split
    · exact .inr (takesOver_of rfl rfl rfl)
    · exact .inl rfl
  · exact .inl rfl

lemma screenShareResume_takesOver {ord : Order} (id : PeerId) (t : Token) :
    (∃ n, (st.screenShareResume ord id t).st = st.tick n) ∨
      TakesOver st (st.screenShareResume ord id t).st id := by
  unfold State.screenShareResume
  split
  · exact .inl ⟨_, rfl⟩
  simp only
  split
  · exact .inl ⟨_, rfl⟩
  split
  · exact .inl ⟨0, rfl⟩
  split
  · exact .inl ⟨_, rfl⟩
  split
  · exact .inl ⟨_, rfl⟩
  · exact .inr (takesOver_of rfl rfl rfl)

lemma TakesOver.took_cases {id : PeerId} (h : TakesOver st st' id) (hp : st'.owned p = some s) :
    st.owned p = some s ∧ st'.tookAt p = st.tookAt p ∨
      st'.tookAt p = (st'.outbox p).log.length := by
  by_cases hid : p = id
  · subst hid
    right
    rw [h.took, h.outbox, Function.update_self]
  · left
    rw [h.took, Function.update_of_ne hid, ← h.others p hid]
    exact ⟨hp, rfl⟩

lemma exec_took (h : exec ch a st = some r) (hp : r.st.owned p = some s) :
    st.owned p = some s ∧ r.st.tookAt p = st.tookAt p ∨
      r.st.tookAt p = (r.st.outbox p).log.length := by
  by_cases hreg : ∃ id s, a = .registerSession id s
  · obtain ⟨id, s', rfl⟩ := hreg
    obtain rfl := Option.some.inj h
    rcases registerSession_takesOver id s' with heq | ht
    · rw [heq] at hp ⊢
      exact .inl ⟨hp, rfl⟩
    · exact ht.took_cases hp
  by_cases hres : ∃ id t, a = .screenShareResume id t
  · obtain ⟨id, t, rfl⟩ := hres
    obtain rfl := Option.some.inj h
    rcases screenShareResume_takesOver id t with ⟨n, heq⟩ | ht
    · rw [heq] at hp ⊢
      exact .inl ⟨hp, rfl⟩
    · exact ht.took_cases hp
  · push Not at hreg hres
    left
    refine ⟨?_, by rw [exec_tookAt h hreg hres]⟩
    exact owner_eq_some.mp ((exec_own h).owner_old hreg hres (owner_eq_some.mpr hp))

lemma exec_paused (h : exec ch a st = some r) (hp : r.st.owned p = some s)
    (hpause : r.st.paused p = true) :
    st.owned p = some s ∧ ((∀ k m, a = .send k p m → (st.outbox p).takes = true →
        encodeOf m = none) ∧ st.paused p = true ∨
      ∃ k m, a = .send k p m ∧ (st.outbox p).takes = true ∧ encodeOf m = some .pause) := by
  have hlast := State.paused_iff.mp hpause
  rcases exec_took h hp with ⟨hold, ht⟩ | ht
  · refine ⟨hold, ?_⟩
    rw [ht] at hlast
    by_cases hsend : ∃ k m, a = .send k p m ∧ (st.outbox p).takes = true
    · obtain ⟨k, m, rfl, htakes⟩ := hsend
      have hlog : (r.st.outbox p).log = (st.outbox p).log ++ [m] := by
        rw [exec_outbox h, Act.queues, Function.update_self, Outbox.log_send, if_pos htakes]
      rw [hlog] at hlast
      -- the message is queued now
      rcases lastEvent_append hlast with hm | ⟨hm, hlast⟩
      · exact .inr ⟨k, m, rfl, htakes, hm⟩
      · left
        refine ⟨?_, State.paused_iff.mpr hlast⟩
        rintro k' m' ⟨⟩ -
        exact hm
    · left
      -- nothing is queued to `p`
      push Not at hsend
      rcases exec_log h p with hlog | ⟨k, m, ha, htakes, -⟩
      · rw [hlog] at hlast
        exact ⟨fun k m ha htakes => absurd htakes (by simp [hsend k m ha]),
          State.paused_iff.mpr hlast⟩
      · exact absurd htakes (hsend k m ha)
  · -- it has just taken the session, and has been told nothing in it
    rw [ht, lastEvent, List.drop_length] at hlast
    cases hlast

lemma exec_pcClosed (h : exec ch a st = some r) (x : PcId) :
    r.st.pcClosed x = st.pcClosed x ∨ a = .close x ∨
      ∃ s, a = .closePublisher s ∧ (st.sessions s).publisherPc = x := by
  by_cases ha : a.moves = false
  · exact .inl (congrFun (exec_still h ha).pcClosed x)
  cases a
  case close y =>
    obtain rfl := Option.some.inj h
    by_cases hx : x = y
    · exact .inr (.inl (hx ▸ rfl))
    · left
      simp only [State.close]
      split_ifs
      · rfl
      · exact Function.update_of_ne hx ..
  case closePublisher s =>
    by_cases hx : x = (st.sessions s).publisherPc
    · exact .inr (.inr ⟨s, rfl, hx.symm⟩)
    · left
      obtain rfl | rfl := closePublisher_spec h
      · rfl
      · exact Function.update_of_ne hx ..
  case cancel | send | delivered | screenShareStart | registerSession | screenShareResume |
      subscribePublisher =>
    left
    obtain rfl := Option.some.inj h
    first
    | rfl
    | simp only [State.screenShareStart, State.registerSession, State.screenShareResume,
        State.subscribePublisher]
      repeat' split
      all_goals rfl
  all_goals exact absurd rfl ha

/-- The PCs of publishers and those of viewers. -/
structure Pcs (st : State) : Prop where
  lt : ∀ s, (st.sessions s).publisherPc < st.next
  apart : ∀ x y s, st.subs x = some y → (st.sessions s).publisherPc ≠ x

/-- What a step does to the PCs: it builds those of one kind at most, and numbers them afresh. -/
inductive PcsStep (st st' : State) : Prop
  | keep (hn : st.next ≤ st'.next)
    (hpc : ∀ s, (st'.sessions s).publisherPc = (st.sessions s).publisherPc)
    (hsubs : ∀ x y, st'.subs x = some y → st.subs x = some y ∨ x = st.next)
  | publisher (hn : st.next < st'.next) (hsubs : st'.subs = st.subs)
    (hpc : ∀ s, (st'.sessions s).publisherPc =
      if s = st.next then st.next else (st.sessions s).publisherPc)

lemma PcsStep.same (hn : st'.next = st.next)
    (hpc : ∀ s, (st'.sessions s).publisherPc = (st.sessions s).publisherPc)
    (hsubs : st'.subs = st.subs) : PcsStep st st' :=
  .keep hn.ge hpc fun _ _ hx => .inl (hsubs ▸ hx)

lemma exec_pcs (h : exec ch a st = some r) : PcsStep st r.st := by
  by_cases ha : a.moves = false
  · -- the other sections leave the PCs alone
    obtain hs := exec_still h ha
    exact .keep hs.next hs.publisherPc fun _ _ hx => .inl (hs.subs ▸ hx)
  cases a
  case closePublisher s =>
    obtain rfl | rfl := closePublisher_spec h <;> exact .same rfl (fun _ => rfl) rfl
  case screenShareStart id data =>
    obtain rfl := Option.some.inj h
    simp only [State.screenShareStart]
    split
    · exact .same rfl (fun _ => rfl) rfl
    split
    · exact .same rfl (fun _ => rfl) rfl
    · refine .publisher (Nat.lt_succ_self _) rfl fun s => ?_
      simp only [State.go, Function.update_apply]
      split_ifs <;> rfl
  case subscribePublisher v s offer =>
    have hx : ∀ x y, Function.update st.subs st.next (some ⟨v, s⟩) x = some y →
        st.subs x = some y ∨ x = st.next := by
      intro x y hx
      rw [Function.update_apply] at hx
      split_ifs at hx with h
      · exact .inr h
      · exact .inl hx
    obtain rfl := Option.some.inj h
    simp only [State.subscribePublisher]
    split <;> exact .keep (Nat.le_succ _) (fun _ => rfl) hx
  case screenShareResume id t =>
    obtain rfl := Option.some.inj h
    simp only [State.screenShareResume]
    repeat' split
    all_goals first
    | exact .same rfl (fun _ => rfl) rfl
    | exact .same rfl (publisherPc_update (by rfl)) rfl
  case registerSession id s =>
    obtain rfl := Option.some.inj h
    simp only [State.registerSession]
    repeat' split
    all_goals exact .same rfl (fun _ => rfl) rfl
  case close pc =>
    obtain rfl := Option.some.inj h
    simp only [State.close]
    split <;> exact .same rfl (fun _ => rfl) rfl
  case cancel | send | delivered =>
    obtain rfl := Option.some.inj h
    exact .same rfl (fun _ => rfl) rfl
  all_goals exact absurd rfl ha

lemma Pcs.exec (hk : Pcs st) (hlt : ∀ x y, st.subs x = some y → x < st.next)
    (h : exec ch a st = some r) : Pcs r.st := by
  obtain ⟨hn, hpc, hsubs⟩ | ⟨hn, hsubs, hpc⟩ := exec_pcs h
  · refine ⟨fun s => hpc s ▸ (hk.lt s).trans_le hn, fun x y s hx => ?_⟩
    rw [hpc s]
    rcases hsubs x y hx with hx | rfl
    · exact hk.apart x y s hx
    · exact (hk.lt s).ne
  · constructor
    · intro s
      rw [hpc s]
      split_ifs
      · exact hn
      · exact (hk.lt s).trans hn
    · intro x y s hx
      rw [hsubs] at hx
      rw [hpc s]
      split_ifs
      · exact (hlt x y hx).ne'
      · exact hk.apart x y s hx

/-- What comes in leaves alone who owns what, and the PCs. -/
structure Frame (st st' : State) : Prop where
  peers : st'.peers = st.peers
  pcClosed : st'.pcClosed = st.pcClosed
  tookAt : st'.tookAt = st.tookAt
  publisherPc : ∀ s, (st'.sessions s).publisherPc = (st.sessions s).publisherPc

lemma begin_frame {e : Event} {o : Option PeerId} {todo : List Act}
    (h : e.begin st = some (st', o, todo)) : Frame st st' := by
  cases e with
  | firstVideo s =>
    simp only [Event.begin] at h
    split at h <;> cases h
    refine ⟨rfl, rfl, rfl, fun s' => ?_⟩
    simp only [State.setSession, Function.update_apply]
    split_ifs with hs
    · rw [hs]
    · rfl
  | _ =>
    simp only [Event.begin, Event.begin.message] at h
    try split at h
    all_goals cases h
    all_goals exact ⟨rfl, rfl, rfl, fun _ => rfl⟩

end Step

section Runs

variable {G : Config → Label → Prop} {c c' : Config} {l : Label} {a : Act} {p v : PeerId}
  {s : SessionId} {x : PcId}

lemma pcs_init : Pcs init.st where
  lt _ := Nat.zero_lt_one
  apart x y s hx := by cases hx

theorem Reach.pcs (h : Reach G c) : Pcs c.st := by
  refine Machine.Reach.invariant' (I := fun c => Pcs c.st) pcs_init ?_ h
  intro c l c' hr hk _ hl
  cases l with
  | run i ch =>
    obtain ⟨a, r, W, -, hex, hst, -, -⟩ := Pool.advance_work hl
    rw [hst]
    exact hk.exec (Reach.built hr).subsLt hex
  | event e =>
    obtain ⟨st, o, todo, hb, rfl, -⟩ := step_event hl
    have hf := begin_frame hb
    have hnext : st.next = c.st.next := congrArg Links.next (begin_links hb).1
    have hsubs : st.subs = c.st.subs := congrArg Links.subs (begin_links hb).1
    constructor
    · intro s
      rw [Pool.st_launch, hf.publisherPc s, hnext]
      exact hk.lt s
    · intro x y s hx
      rw [Pool.st_launch, hsubs] at hx
      rw [Pool.st_launch, hf.publisherPc s]
      exact hk.apart x y s hx

lemma leaves_waits {ch : Choice} {r : Effect} {W : List Act} {b : Act} (hr : Reach G c)
    (hex : exec ch a c.st = some r) (hst : c'.st = r.st)
    (hw' : c'.work.Perm (r.next ++ r.spawned.flatten ++ W)) (hsub : c.st.subs x = some ⟨v, s⟩)
    (hpub : (c'.st.sessions s).publisherId = (c.st.sessions s).publisherId) (hb : b ∈ W)
    (hlv : b.leaves c.st s v x = true) : ∃ b ∈ c'.work, b.leaves c'.st s v x = true := by
  have hb' : b ∈ c'.work := hw'.mem_iff.mpr (by simp [hb])
  by_cases hclose : b = .close x
  · subst hclose
    obtain ⟨-, hopen⟩ : True ∧ c.st.pcClosed x = false := by simpa [Act.leaves] using hlv
    rcases exec_pcClosed hex x with hsame | rfl | ⟨s', rfl, hpc⟩
    · exact ⟨.close x, hb', by simp [Act.leaves, hst, hsame, hopen]⟩
    · obtain rfl := Option.some.inj hex
      refine ⟨.subClosed x, hw'.mem_iff.mpr ?_, by simp [Act.leaves]⟩
      simp [State.close, hopen, State.go]
    · exact absurd hpc (hr.pcs.apart x _ s' hsub)
  · refine ⟨b, hb', ?_⟩
    cases b <;> simp only [Act.leaves, decide_eq_true_eq, Bool.false_eq_true] at hlv ⊢
    case close y => exact absurd (by rw [hlv.1]) hclose
    case subClosed | dropSubscriber => exact hlv
    case removeScreenSub => rw [hpub]; exact hlv

lemma leaves_stays {ch : Choice} {r : Effect} {W : List Act} {b : Act} (hr : Reach G c)
    (hl : step c l = some c') (hex : exec ch a c.st = some r) (hst : c'.st = r.st)
    (hw : c.work.Perm (a :: W)) (hw' : c'.work.Perm (r.next ++ r.spawned.flatten ++ W))
    (hp : c.st.owned p = some s) (hc : (c.st.sessions s).closed = false)
    (hx : c.st.subscriber s v = some x) (hx' : c'.st.subscriber s v = some x)
    (hb : b ∈ c.work) (hlv : b.leaves c.st s v x = true) :
    ∃ b ∈ c'.work, b.leaves c'.st s v x = true := by
  have hpub : (c.st.sessions s).publisherId = p := hr.exclusive.publisher p s (owner_eq_some.mpr hp)
  have hpub' : (c'.st.sessions s).publisherId = (c.st.sessions s).publisherId :=
    (step_link hr.exclusive hr.oneAtATime hl).publisher hx'
  have hsub : c.st.subs x = some ⟨v, s⟩ := hr.built.sub s v x hx
  have new {d : Act} (hmem : d ∈ r.next) (h : d.leaves c'.st s v x = true) :
      ∃ b ∈ c'.work, b.leaves c'.st s v x = true :=
    ⟨d, hw'.mem_iff.mpr (by simp [hmem]), h⟩
  rcases List.mem_cons.mp (hw.mem_iff.mp hb) with rfl | hbW
  · -- the step that takes the viewer out goes on
    cases b <;> simp only [Act.leaves, decide_eq_true_eq, Bool.false_eq_true] at hlv
    case close y =>
      obtain ⟨rfl, hopen⟩ := hlv
      obtain rfl := Option.some.inj hex
      refine new (d := .subClosed y) ?_ (by simp [Act.leaves])
      simp [State.close, hopen, State.go]
    case subClosed y =>
      subst hlv
      obtain rfl := Option.some.inj hex
      refine new (d := .removeScreenSub v p (some y)) ?_ ?_
      · simp [State.subClosed, hsub, hc, State.go, hpub]
      · simp [Act.leaves, hpub', hpub]
    case removeScreenSub v' p' only =>
      obtain ⟨rfl, rfl, ho⟩ := hlv
      obtain rfl := Option.some.inj hex
      refine new (d := .dropSubscriber v' p s only) ?_ ?_
      · simp [State.removeScreenSub, State.go, hpub, hp]
      · simpa [Act.leaves] using ho
    case dropSubscriber v' p' s' only =>
      obtain ⟨rfl, rfl, ho⟩ := hlv
      obtain rfl := Option.some.inj hex
      rw [hst, subscriber_dropSubscriber] at hx'
      rw [hx] at hx'
      simp [ho.imp id Eq.symm] at hx'
  · exact leaves_waits hr hex hst hw' hsub hpub' hbW hlv

lemma open_before (hr : Reach G c) (hl : step c l = some c') (hp : c.st.owned p = some s)
    (hc : (c'.st.sessions s).closed = false) : (c.st.sessions s).closed = false := by
  have hlt : s < c.st.next := by
    by_contra hge
    exact (hr.exclusive.fresh s (not_lt.mp hge)).owner p (owner_eq_some.mpr hp)
  by_contra hcl
  have hcl' : (c'.st.sessions s).closed = true :=
    (step_core hl).closed_mono hlt (Bool.eq_true_of_not_eq_false hcl)
  rw [hc] at hcl'
  cases hcl'

lemma viewers_run {ch : Choice} {r : Effect} {W : List Act} (hr : Reach G c)
    (hl : step c l = some c') (hact : l.act c = some a) (hex : exec ch a c.st = some r)
    (hst : c'.st = r.st) (hw : c.work.Perm (a :: W))
    (hw' : c'.work.Perm (r.next ++ r.spawned.flatten ++ W)) (hpause : c'.st.paused p = true)
    (hv : (v, x) ∈ viewers c' p) :
    (v, x) ∈ viewers c p ∨
      ∃ q s, a = .insertSubscriber v q s x ∧ c.st.owned p = some s ∧
        (c.st.sessions s).closed = false := by
  obtain ⟨s, hp', hc', hx', hno⟩ := mem_viewers.mp hv
  have hp : c.st.owned p = some s := (exec_paused hex (hst ▸ hp') (hst ▸ hpause)).1
  have hc := open_before hr hl hp hc'
  rcases (step_link hr.exclusive hr.oneAtATime hl).sub hx' with hx | ⟨q, first, W', hin⟩
  · left
    refine mem_viewers.mpr ⟨s, hp, hc, hx, fun b hb => ?_⟩
    by_contra hlv
    obtain ⟨b', hb', hlv'⟩ := leaves_stays hr hl hex hst hw hw' hp hc hx hx' hb (by simpa using hlv)
    rw [hno b' hb'] at hlv'
    cases hlv'
  · right
    exact ⟨q, s, Option.some.inj (hact.symm.trans hin.act), hp, hc⟩

/-- Another pending step than `a` queues a resume to `p`. -/
def resumed (c : Config) (a : Act) (p : PeerId) : Bool := (c.work.erase a).any (·.resumes p)

/-- Where two steps cross, the last leaves nobody starving: a viewer that comes in is the first
and its resume goes to the right peer, or nothing is paused; a resume is given up only for
nobody, and taken in; a pause is taken in only when nobody stays. -/
def dispatched (c : Config) (a : Act) : Bool :=
  match a with
  | .insertSubscriber v p s x =>
    let pub := (c.st.sessions s).publisherId
    (c.st.sessions s).closed || decide (c.st.owned pub ≠ some s) || !c.st.paused pub ||
      resumed c a pub || c.work.any (·.leaves c.st s v x) ||
      decide (HashMap.len (AList.insert v x (c.st.sessions s).subscribers) = 1 ∧ p = pub)
  | .attachSub v p _ x first =>
    !first || (c.st.peers.get v).isSome || !c.st.paused p || resumed c a p ||
      (viewers c p).all (· = (v, x))
  | .send _ p m =>
    match encodeOf m with
    | none => true
    | some .pause => !(c.st.outbox p).takes || resumed c a p || (viewers c p).isEmpty
    | some .resume =>
      (c.st.outbox p).takes || !c.st.paused p || resumed c a p || (viewers c p).isEmpty
  | _ => true

lemma resumed_eq_false {W : List Act} (hw : c.work.Perm (a :: W))
    (hW : ∀ b ∈ W, b.resumes p = false) : resumed c a p = false := by
  have herase : (c.work.erase a).Perm W := by simpa using hw.erase a
  rw [resumed, List.any_eq_false]
  intro b hb
  simp [hW b (herase.mem_iff.mp hb)]

/-- A paused publisher with a viewer that stays is left with no resume to come only against
the guard. -/
lemma resume_stays {ch : Choice} {r : Effect} {W : List Act} (hr : Reach G c)
    (hl : step c l = some c') (hg : dispatched c a = true) (hex : exec ch a c.st = some r)
    (hst : c'.st = r.st) (hw : c.work.Perm (a :: W))
    (hw' : c'.work.Perm (r.next ++ r.spawned.flatten ++ W))
    (hsend : ∀ k m, a = .send k p m → (c.st.outbox p).takes = true → encodeOf m = none)
    (hpause : c.st.paused p = true) (hv : (v, x) ∈ viewers c p) (hv' : (v, x) ∈ viewers c' p)
    (ha : a.resumes p = true) (hW : ∀ b ∈ W, b.resumes p = false) :
    ∃ b ∈ c'.work, b.resumes p = true := by
  have hres := resumed_eq_false hw hW
  have new {b : Act} (hb : b ∈ r.next) (h : b.resumes p = true) :
      ∃ b ∈ c'.work, b.resumes p = true := ⟨b, hw'.mem_iff.mpr (by simp [hb]), h⟩
  cases a <;> simp only [Act.resumes, decide_eq_true_eq, Bool.false_eq_true] at ha
  case attachSub u q s' y first =>
    obtain ⟨rfl, rfl⟩ := ha
    obtain rfl := Option.some.inj hex
    rcases he : c.st.peers.get u with _ | e
    · -- its own viewer is gone: then it is the only one, and leaves
      exfalso
      simp only [dispatched, he, hpause, hres, Bool.not_true, Bool.false_or,
        Option.isSome_none, List.all_eq_true, decide_eq_true_eq] at hg
      cases hg _ hv
      obtain ⟨s, hp, -, -, hno⟩ := mem_viewers.mp hv'
      have hreach : Reach Machine.free c' := hr.to_free.tail l trivial hl
      have hpub : (c'.st.sessions s).publisherId = q :=
        hreach.exclusive.publisher q s (owner_eq_some.mpr hp)
      have hlv := hno (.removeScreenSub v q (some x))
        (hw'.mem_iff.mpr (by simp [State.attachSub, he, State.go]))
      simp [Act.leaves, hpub] at hlv
    · -- it goes on to send the resume
      exact new (b := .sendEncode q .resume) (by simp [State.attachSub, he, State.go])
        (by simp [Act.resumes])
  case sendEncode q event =>
    obtain ⟨rfl, rfl⟩ := ha
    obtain rfl := Option.some.inj hex
    obtain ⟨s, hp, -⟩ := mem_viewers.mp hv
    obtain ⟨e, he, -⟩ := Option.bind_eq_some_iff.mp hp
    exact new (b := .send c.st.clock q .screenShareEncodeResume)
      (by simp [State.sendEncode, he, State.reply, State.go]) (by simp [Act.resumes])
  case send k q m =>
    obtain ⟨rfl, rfl⟩ := ha
    exfalso
    simp only [dispatched, encodeOf, hpause, hres, Bool.not_true, Bool.or_false,
      Bool.or_eq_true, List.isEmpty_iff] at hg
    rcases hg with htakes | hnil
    · cases hsend k _ rfl htakes
    · rw [hnil] at hv
      cases hv

lemma insert_resumes {ch : Choice} {r : Effect} {W : List Act} {q : PeerId} (hr : Reach G c)
    (hl : step c l = some c') (hg : dispatched c (.insertSubscriber v q s x) = true)
    (hex : exec ch (.insertSubscriber v q s x) c.st = some r) (hst : c'.st = r.st)
    (hw : c.work.Perm (.insertSubscriber v q s x :: W))
    (hw' : c'.work.Perm (r.next ++ r.spawned.flatten ++ W)) (hp : c.st.owned p = some s)
    (hc : (c.st.sessions s).closed = false) (hpause : c.st.paused p = true)
    (hv' : (v, x) ∈ viewers c' p) (hW : ∀ b ∈ W, b.resumes p = false) :
    ∃ b ∈ c'.work, b.resumes p = true := by
  have hpub : (c.st.sessions s).publisherId = p := hr.exclusive.publisher p s (owner_eq_some.mpr hp)
  have hres := resumed_eq_false hw hW
  simp only [dispatched, hc, hpub, hp, hpause, hres, ne_eq, not_true_eq_false, decide_false,
    Bool.false_or, Bool.not_true, Bool.or_eq_true, List.any_eq_true, decide_eq_true_eq] at hg
  rcases hg with ⟨b, hb, hlv⟩ | ⟨hlen, rfl⟩
  · -- a viewer that comes only to leave
    exfalso
    have hmem : .insertSubscriber v q s x ∈ pendingLinks c :=
      mem_pendingOf.mpr ⟨hw.mem_iff.mpr (by simp), rfl⟩
    have hsub : c.st.subs x = some ⟨v, s⟩ := hr.built.brought _ hmem v s x ⟨rfl, rfl, rfl⟩
    have hbW : b ∈ W := by
      rcases List.mem_cons.mp (hw.mem_iff.mp hb) with rfl | hb
      · cases hlv
      · exact hb
    obtain ⟨s', hp', -, hx', hno⟩ := mem_viewers.mp hv'
    have hreach : Reach Machine.free c' := hr.to_free.tail l trivial hl
    have hs : s' = s := by
      have h := hreach.built.sub s' v x hx'
      have h' : c'.st.subs x = some ⟨v, s⟩ :=
        (step_link hr.exclusive hr.oneAtATime hl).subs hr.built hsub
      cases h.symm.trans h'
      rfl
    subst hs
    have hpub' : (c'.st.sessions s').publisherId = (c.st.sessions s').publisherId :=
      (step_link hr.exclusive hr.oneAtATime hl).publisher hx'
    obtain ⟨b', hb', hlv'⟩ := leaves_waits hr hex hst hw' hsub hpub' hbW hlv
    rw [hno b' hb'] at hlv'
    cases hlv'
  · obtain rfl := Option.some.inj hex
    refine ⟨.attachSub v q s x true, hw'.mem_iff.mpr ?_, by simp [Act.resumes]⟩
    simp [State.insertSubscriber, hc, State.go, hlen]

lemma not_starving_run {i : ℕ} {ch : Choice} (hr : Reach G c)
    (hl : step c (.run i ch) = some c') (hg : guard dispatched c (.run i ch))
    (hk : ¬ Starving c p) : ¬ Starving c' p := by
  rintro ⟨hpause', ⟨⟨v, x⟩, hv'⟩, halone⟩
  obtain ⟨a, r, W, ha, hex, hst, hw, hw'⟩ := Pool.advance_work hl
  have hga : dispatched c a = true := hg a ha
  have hW : ∀ b ∈ W, b.resumes p = false :=
    fun b hb => halone b (hw'.mem_iff.mpr (by simp [hb]))
  have contra (h : ∃ b ∈ c'.work, b.resumes p = true) : False := by
    obtain ⟨b, hb, h⟩ := h
    rw [halone b hb] at h
    cases h
  obtain ⟨s, hp', -⟩ := mem_viewers.mp hv'
  obtain ⟨hp, hcases⟩ := exec_paused hex (hst ▸ hp') (hst ▸ hpause')
  rcases viewers_run hr hl ha hex hst hw hw' hpause' hv' with hv | ⟨q, s', rfl, hp, hc⟩
  · rcases hcases with ⟨hsend, hpause⟩ | ⟨k, m, rfl, htakes, hm⟩
    · -- the viewer was there and the pause too, so the step was itself the resume to come
      have hra : a.resumes p = true := by
        by_contra hna
        refine hk ⟨hpause, ⟨_, hv⟩, fun b hb => ?_⟩
        rcases List.mem_cons.mp (hw.mem_iff.mp hb) with rfl | hb
        · exact Bool.eq_false_of_not_eq_true hna
        · exact hW b hb
      exact contra (resume_stays hr hl hga hex hst hw hw' hsend hpause hv hv' hra hW)
    · simp only [dispatched, hm, htakes, resumed_eq_false hw hW, Bool.not_true, Bool.false_or,
        List.isEmpty_iff] at hga
      rw [hga] at hv
      cases hv
  · rcases hcases with ⟨-, hpause⟩ | ⟨k, m, h, -⟩
    · exact contra (insert_resumes hr hl hga hex hst hw hw' hp hc hpause hv' hW)
    · cases h

lemma not_starving_event {e : Event} (hl : step c (.event e) = some c') (hk : ¬ Starving c p) :
    ¬ Starving c' p := by
  rintro ⟨hpause, ⟨⟨v, x⟩, hv⟩, halone⟩
  obtain ⟨st, o, todo, hb, rfl, -⟩ := step_event hl
  have hf := begin_frame hb
  have hpub : ∀ s, (st.sessions s).publisherId = (c.st.sessions s).publisherId :=
    fun s => congrFun (congrArg Links.publisher (begin_links hb).1) s
  have hclosed : ∀ s, (st.sessions s).closed = (c.st.sessions s).closed :=
    fun s => congrFun (congrArg Links.closed (begin_links hb).1) s
  have hsub : st.subscriber = c.st.subscriber := congrArg Links.sub (begin_links hb).1
  rw [Pool.work_launch] at halone
  refine hk ⟨?_, ⟨(v, x), ?_⟩, fun a ha => halone a (by simp [ha])⟩
  · have hlast : lastEvent (st.outbox p).log (st.tookAt p) = some .pause :=
      State.paused_iff.mp hpause
    rw [hf.tookAt] at hlast
    rw [State.paused_iff]
    rcases begin_log hb p with hlog | hlog
    · rwa [hlog] at hlast
    · rw [hlog] at hlast
      rcases lastEvent_append hlast with h | ⟨-, h⟩
      · cases h
      · exact h
  · -- who watches watched before
    obtain ⟨s, hp, hc, hx, hno⟩ := mem_viewers.mp hv
    rw [Pool.st_launch] at hp hc hx hno
    refine mem_viewers.mpr ⟨s, ?_, hclosed s ▸ hc, hsub ▸ hx, fun a ha => ?_⟩
    · rwa [State.owned, hf.peers] at hp
    · have h := hno a (by simp [ha])
      rw [← h]
      cases a <;> simp only [Act.leaves, hf.pcClosed, hpub]

theorem Reach.not_starving (h : Reach (guard dispatched) c) : ¬ Starving c p := by
  refine Machine.Reach.invariant' (I := fun c => ¬ Starving c p) ?_ ?_ h
  · rintro ⟨hpause, -⟩
    cases hpause
  · intro c l c' hr hk hg hl
    cases l with
    | run i ch => exact not_starving_run hr hl hg hk
    | event e => exact not_starving_event hl hk

end Runs

/-- The last encode event of an owner whose open session has viewers is not a pause. -/
def NeverStarves (st : State) : Prop :=
  ∀ p s, st.owned p = some s → (st.sessions s).closed = false →
    HashMap.isEmpty (st.sessions s).subscribers = false → st.lastEncode p ≠ some .pause

/-- **Dynacast never starves a viewer**, if steps that cross are dispatched so. -/
theorem never_starves {c : Config} (h : Reach (guard dispatched) c) (hq : c.Quiet) :
    NeverStarves c.st := by
  intro p s hp hc hne hlast
  obtain ⟨v, x, hx⟩ := HashMap.not_isEmpty_iff.mp hne
  have hwork : c.work = [] := hq
  refine h.not_starving (p := p) ⟨decide_eq_true hlast, ⟨(v, x), ?_⟩, by simp [hwork]⟩
  exact mem_viewers.mpr ⟨s, hp, hc, hx, by simp [hwork]⟩

/-- A peer shares, another is there; the first video is announced and the session found idle. -/
def foundIdle : List Label :=
  [.event (.join ⟨"p1", "c", false⟩ "A"), .run 0 .plain, .run 0 .plain, .run 0 .plain,
    .event (.screenShareStart "p1" ⟨true, none, some .vp9⟩),
    .run 1 .plain, .run 1 .plain, .run 1 .plain, .run 1 .plain,
    .event (.join ⟨"p2", "d", false⟩ "B"), .run 2 .plain, .run 2 .plain, .run 2 .plain,
    .run 2 .plain, .event (.firstVideo 1)] ++ List.replicate 7 (.run 3 .plain)

/-- The pause is queued, and then the other peer subscribes. -/
def pausedFirst : List Label :=
  foundIdle ++ List.replicate 3 (.run 3 .plain) ++ [.event (.screenShareSubscribe "p2" "p1" true)] ++
    List.replicate 7 (.run 4 .plain)

theorem never_starves_pausedFirst : NeverStarves (after pausedFirst).st :=
  never_starves (reach_after (by decide +kernel) (by decide +kernel)) (by decide +kernel)

/-- The other peer subscribes, and then the pause is queued. -/
def pausedLast : List Label :=
  foundIdle ++ [.event (.screenShareSubscribe "p2" "p1" true)] ++ List.replicate 7 (.run 4 .plain) ++
    List.replicate 3 (.run 3 .plain)

/-- A pause decided on before the first viewer came can reach the publisher after its resume. -/
theorem starves : ¬ ∀ c, Reach Machine.free c → c.Quiet → NeverStarves c.st := by
  intro h
  exact h (after pausedLast) (reach_after (by decide +kernel) (by decide +kernel))
    (by decide +kernel) "p1" 1 (by decide +kernel) (by decide +kernel) (by decide +kernel)
    (by decide +kernel)

end VoiceHub.Sfu.Room
