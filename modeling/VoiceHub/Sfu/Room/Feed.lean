import Mathlib
import VoiceHub.Lib.Posts
import VoiceHub.Sfu.Room.Notices
import VoiceHub.Sfu.Room.Queues

/-!
What the peers of a room make of their queues.

A `Feed` is a way to read the roster messages: what each tells, how things are in the room, and
what a reader has of them. Every section tells what it changed, so a reader whose messages come
in order, as far as that matters, ends up with how things are.
-/

namespace VoiceHub.Sfu.Room

open VoiceHub.Lib

variable {ch : Choice} {a : Act} {st st' : State} {r : Effect} {c c' : Config} {l : Label}
  {v : PeerId}

/-! ### The notices that are pending -/

abbrev Notice := Post Msg

/-- What a step tells `v`. -/
def Act.notice (v : PeerId) : Act → Option Notice
  | .send seq op m => if op = v ∧ m.isRoster = true then some ⟨seq, m⟩ else none
  | _ => none

def notices (v : PeerId) (l : List Act) : List Notice := l.filterMap (Act.notice v)

lemma Act.notice_eq_some {n : Notice} :
    a.notice v = some n ↔ a = .send n.seq v n.msg ∧ n.msg.isRoster = true := by
  cases a with
  | send seq op m =>
    rw [Act.notice]
    constructor
    · intro h
      split_ifs at h with hop
      obtain rfl := Option.some.inj h
      exact ⟨by rw [hop.1], hop.2⟩
    · rintro ⟨heq, hm⟩
      injection heq with hseq hop hmsg
      rw [if_pos ⟨hop, by rw [hmsg]; exact hm⟩, hseq, hmsg]
  | _ => simp [Act.notice]

lemma mem_notices {n : Notice} {todo : List Act} :
    n ∈ notices v todo ↔ .send n.seq v n.msg ∈ todo ∧ n.msg.isRoster = true := by
  rw [notices, List.mem_filterMap]
  constructor
  · rintro ⟨b, hb, hn⟩
    obtain ⟨rfl, hm⟩ := Act.notice_eq_some.mp hn
    exact ⟨hb, hm⟩
  · rintro ⟨hb, hm⟩
    exact ⟨_, hb, Act.notice_eq_some.mpr ⟨rfl, hm⟩⟩

lemma notices_append (v : PeerId) (todo todo' : List Act) :
    notices v (todo ++ todo') = notices v todo ++ notices v todo' := List.filterMap_append ..

/-- The messages that `v` has still to get. -/
def pendingNotices (v : PeerId) (c : Config) : Multiset Notice := notices v c.work

lemma mem_pendingNotices {n : Notice} :
    n ∈ pendingNotices v c ↔ .send n.seq v n.msg ∈ c.work ∧ n.msg.isRoster = true :=
  Multiset.mem_coe.trans mem_notices

lemma notices_perm {todo todo' : List Act} (h : todo.Perm todo') :
    (notices v todo : Multiset Notice) = notices v todo' :=
  Multiset.coe_eq_coe.mpr (h.filterMap _)

lemma notices_spawned (h : exec ch a st = some r) : notices v r.spawned.flatten = [] := by
  obtain hnil | ⟨t, ht⟩ := exec_spawned h
  · rw [hnil]
    rfl
  · rw [ht]
    rfl

lemma pendingNotices_run {i : ℕ} (h : step c (.run i ch) = some c') :
    ∃ (a : Act) (r : Effect) (W : PeerId → Multiset Notice), c.head? i = some a ∧
      exec ch a c.st = some r ∧ c'.st = r.st ∧ a ∈ c.work ∧
      (∀ b ∈ c'.work, b ∈ r.next ∨ b ∈ c.work ∨ b.isNotice = false) ∧
      ∀ v, pendingNotices v c = ↑(a.notice v).toList + W v ∧
        pendingNotices v c' = ↑(notices v r.next) + W v := by
  obtain ⟨a, r, W, ha, hr, hst, hw, hw'⟩ := Pool.advance_work h
  refine ⟨a, r, fun v => notices v W, ha, hr, hst, hw.mem_iff.mpr List.mem_cons_self,
    fun b hb => ?_, fun v => ⟨?_, ?_⟩⟩
  · rcases List.mem_append.mp (hw'.mem_iff.mp hb) with hb | hb
    · rcases List.mem_append.mp hb with hb | hb
      · exact .inl hb
      · obtain hnil | ⟨t, ht⟩ := exec_spawned hr
        · rw [hnil] at hb
          cases hb
        · rw [ht] at hb
          obtain rfl := List.mem_singleton.mp hb
          exact .inr (.inr rfl)
    · exact .inr (.inl (hw.mem_iff.mpr (List.mem_cons_of_mem _ hb)))
  · rw [pendingNotices, notices_perm hw, Multiset.coe_add, notices, List.filterMap_cons]
    cases a.notice v <;> rfl
  · rw [pendingNotices, notices_perm hw', notices_append, notices_append, notices_spawned hr,
      List.append_nil, Multiset.coe_add]

lemma begin_tells {e : Event} {o : Option PeerId} {todo : List Act}
    (h : e.begin st = some (st', o, todo)) : st'.peers = st.peers ∧ st'.seen = st.seen ∧
      st'.clock = st.clock ∧ watched Act.isNotice todo = [] := by
  cases e <;> simp only [Event.begin, Event.begin.message] at h <;> (try split at h) <;>
    cases h <;> exact ⟨rfl, rfl, rfl, rfl⟩

/-! ### Queues that take nothing in any more -/

namespace Outbox

variable {μ : Type} {o o' : Outbox μ}

/-- What a queue goes through unless it is cancelled by hand. -/
structure Goes (o o' : Outbox μ) : Prop where
  overflowed : o.overflowed = true → o'.overflowed = true
  cancelled : o'.cancelled = true → o.cancelled = true ∨ o'.overflowed = true

lemma Goes.refl (o : Outbox μ) : o.Goes o := ⟨fun h => h, .inl⟩

lemma goes_send (o : Outbox μ) (m : μ) : o.Goes (o.send m) := by
  unfold send
  split_ifs
  · exact .refl o
  · exact ⟨fun h => h, .inl⟩
  · exact ⟨fun _ => rfl, fun _ => .inr rfl⟩

lemma log_send_of_open {m : μ} (hc : o.cancelled = false) (ho : (o.send m).overflowed = false) :
    (o.send m).log = o.log ++ [m] := by
  unfold send at ho ⊢
  rw [hc, if_neg (by decide)] at ho ⊢
  split_ifs at ho ⊢
  rfl

end Outbox

/-- Of the steps, only one cancels a queue by hand. -/
lemma exec_goes (h : exec ch a st = some r) (v : PeerId) :
    (st.outbox v).Goes (r.st.outbox v) ∨ a = .cancel v ∧
      r.st.outbox v = { st.outbox v with cancelled := true } := by
  rw [exec_outbox h]
  cases a with
  | send seq op m =>
    rw [Act.queues, Function.update_apply]
    split_ifs with hv
    · subst hv
      exact .inl (Outbox.goes_send _ m)
    · exact .inl (.refl _)
  | cancel id =>
    rw [Act.queues, Function.update_apply]
    split_ifs with hv
    · subst hv
      exact .inr ⟨rfl, rfl⟩
    · exact .inl (.refl _)
  | _ => exact .inl (.refl _)

lemma begin_goes {e : Event} {o : Option PeerId} {todo : List Act}
    (h : e.begin st = some (st', o, todo)) (v : PeerId) : (st.outbox v).Goes (st'.outbox v) := by
  cases e with
  | other id =>
    obtain ⟨rfl, -⟩ := Prod.mk.inj (Option.some.inj h)
    dsimp only [State.send]
    rw [Function.update_apply]
    split_ifs with hv
    · subst hv
      exact Outbox.goes_send _ _
    · exact .refl _
  | drain id =>
    simp only [Event.begin] at h
    split at h <;> cases h
    dsimp only
    rw [Function.update_apply]
    split_ifs with hv
    · subst hv
      exact ⟨fun h => h, .inl⟩
    · exact .refl _
  | _ =>
    simp only [Event.begin, Event.begin.message] at h
    try split at h
    all_goals cases h
    all_goals exact .refl _

/-! ### What always holds -/

lemma Own.known {k k' : Core} {next : List Act} (h : Own k a k' next)
    (hk : ∀ id p, k.peer id = some p → k.seen id = some p) :
    ∀ id p, k'.peer id = some p → k'.seen id = some p := by
  cases h with
  | join hp hg =>
    intro id q hq
    simp only [Function.update_apply]
    dsimp only at hq
    split_ifs at hq ⊢
    · exact hq
    · exact hk id q hq
  | leave =>
    intro id q hq
    simp only [Function.update_apply] at hq
    split_ifs at hq
    exact hk id q hq
  | _ => exact hk

lemma Own.seen_eq {k k' : Core} {next : List Act} (h : Own k a k' next) (id : PeerId) :
    k'.seen id = k.seen id ∨ k.seen id = none ∧ (k'.peer id).isSome := by
  cases h with
  | @join p name gone hfresh hg =>
    by_cases hid : id = p.id
    · subst hid
      refine .inr ⟨hfresh, ?_⟩
      dsimp only
      rw [if_pos rfl]
      rfl
    · exact .inl (Function.update_of_ne hid ..)
  | _ => exact .inl rfl

lemma Own.gone {k k' : Core} {next : List Act} {id : PeerId} (h : Own k a k' next)
    (hp : k.peer id = none) (hs : (k.seen id).isSome) : k'.peer id = none := by
  cases h with
  | @join p name gone hfresh hg =>
    have hne : id ≠ p.id := by
      rintro rfl
      rw [hfresh] at hs
      cases hs
    simp only [if_neg hne, hp, ite_self]
  | leave =>
    dsimp only
    rw [Function.update_apply]
    split_ifs
    · rfl
    · exact hp
  | _ => exact hp

/-- `v` has left. -/
def Left (st : State) (v : PeerId) : Prop := st.peers.get v = none ∧ (st.seen v).isSome

/-- Who is there has joined; no two have one client; what is still to be told was computed; only
those who left or whose queue overflowed take nothing in. -/
structure Wired (c : Config) : Prop where
  known : ∀ k e, c.st.peers.get k = some e → c.st.seen k = some e.peer
  apart : c.st.peers.Apart
  numbered : ∀ seq v m, .send seq v m ∈ c.work → m.isRoster = true → seq < c.st.clock
  cancels : ∀ v, .cancel v ∈ c.work → Left c.st v
  deaf : ∀ v, (c.st.outbox v).cancelled = true → (c.st.outbox v).overflowed = true ∨ Left c.st v

lemma wired_init : Wired init where
  known k e he := by cases he
  apart k k' e e' he := by cases he
  numbered seq v m h := by cases h
  cancels v h := by cases h
  deaf v h := by cases h

lemma Wired.fresh (h : Wired c) {p : Peer} {name : String} (ha : a = .addPeer p name)
    (hr : exec ch a c.st = some r) : c.st.peers.get p.id = none := by
  subst ha
  simp only [exec, State.addPeer] at hr
  split at hr
  · cases hr
  next hseen =>
  refine Option.eq_none_iff_forall_not_mem.mpr fun e he => hseen ?_
  rw [h.known p.id e he]
  rfl

lemma Wired.notifies (h : Wired c) (hr : exec ch a c.st = some r) : Notifies c.st a r :=
  exec_notifies (fun _ _ ha => h.fresh ha hr) hr

lemma exec_seen_eq (h : exec ch a st = some r) (k : PeerId) :
    r.st.seen k = st.seen k ∨ st.seen k = none ∧ (r.st.peers.get k).isSome :=
  ((exec_own h).seen_eq k).imp_right fun hk => ⟨hk.1, by simpa [State.core] using hk.2⟩

lemma exec_seen (h : exec ch a st = some r) {k : PeerId} {p : Peer} (hs : st.seen k = some p) :
    r.st.seen k = some p := by
  obtain heq | ⟨hnone, -⟩ := exec_seen_eq h k
  · rw [heq, hs]
  · rw [hs] at hnone
    cases hnone

lemma exec_left (h : exec ch a st = some r) (hv : Left st v) : Left r.st v := by
  obtain ⟨p, hp⟩ := Option.isSome_iff_exists.mp hv.2
  refine ⟨?_, by rw [exec_seen h hp]; rfl⟩
  have hpeer : st.core.peer v = none := Option.map_eq_none_iff.mpr hv.1
  exact Option.map_eq_none_iff.mp ((exec_own h).gone hpeer hv.2)

lemma exec_known (h : exec ch a st = some r)
    (hk : ∀ k e, st.peers.get k = some e → st.seen k = some e.peer) :
    ∀ k e, r.st.peers.get k = some e → r.st.seen k = some e.peer := by
  intro k e he
  refine (exec_own h).known (fun id p hp => ?_) k e.peer (Option.map_eq_some_iff.mpr ⟨e, he, rfl⟩)
  obtain ⟨e', he', rfl⟩ := Option.map_eq_some_iff.mp hp
  exact hk id e' he'

lemma Wired.run (h : Wired c) {i : ℕ} (hs : step c (.run i ch) = some c') : Wired c' := by
  obtain ⟨a, r, W, -, hr, hst, hmem, hwork, -⟩ := pendingNotices_run hs
  have hnotifies := h.notifies hr
  constructor
  case known =>
    rw [hst]
    exact exec_known hr h.known
  case apart => exact hst ▸ hnotifies.apart h.apart
  case numbered =>
    intro seq v m hsend hm
    rw [hst]
    obtain hnew | hold | hnone := hwork _ hsend
    · exact (hnotifies.numbered seq v m hnew hm).2
    · exact (h.numbered seq v m hold hm).trans_le hnotifies.clock
    · exact absurd hm (by rw [show m.isRoster = false from hnone]; decide)
  case cancels =>
    intro v hv
    rw [hst]
    obtain hnew | hold | hnone := hwork _ hv
    · obtain ⟨hthere, hgone⟩ := hnotifies.cancels v hnew
      obtain ⟨e, he⟩ := Option.isSome_iff_exists.mp hthere
      exact ⟨hgone, by rw [exec_seen hr (h.known v e he)]; rfl⟩
    · exact exec_left hr (h.cancels v hold)
    · cases hnone
  case deaf =>
    intro v hv
    rw [hst] at hv ⊢
    obtain hgoes | ⟨rfl, -⟩ := exec_goes hr v
    · obtain hv | hv := hgoes.cancelled hv
      · exact (h.deaf v hv).imp hgoes.overflowed (exec_left hr)
      · exact .inl hv
    · exact .inr (exec_left hr (h.cancels v hmem))

theorem Wired.step (h : Wired c) (hs : step c l = some c') : Wired c' := by
  cases l with
  | run i ch => exact h.run hs
  | event e =>
    obtain ⟨st, o, todo, hb, rfl, -⟩ := step_event hs
    obtain ⟨hpeers, hseen, hclock, htodo⟩ := begin_tells hb
    have hwork : ∀ b ∈ (c.launch st o todo).work, b ∈ c.work ∨ b.isNotice = false := by
      intro b hb
      rw [Pool.work_launch] at hb
      exact (List.mem_append.mp hb).imp_right (eq_false_of_watched htodo b)
    have hleft (v : PeerId) : Left st v ↔ Left c.st v := by rw [Left, Left, hpeers, hseen]
    constructor
    case known =>
      rw [Pool.st_launch, hpeers, hseen]
      exact h.known
    case apart =>
      rw [Pool.st_launch, hpeers]
      exact h.apart
    case numbered =>
      intro seq v m hsend hm
      rw [Pool.st_launch, hclock]
      obtain hold | hnone := hwork _ hsend
      · exact h.numbered seq v m hold hm
      · exact absurd hm (by rw [show m.isRoster = false from hnone]; decide)
    case cancels =>
      intro v hv
      rw [Pool.st_launch, hleft]
      obtain hold | hnone := hwork _ hv
      · exact h.cancels v hold
      · cases hnone
    case deaf =>
      intro v hv
      rw [Pool.st_launch] at hv ⊢
      rw [hleft]
      obtain hv | hv := (begin_goes hb v).cancelled hv
      · exact (h.deaf v hv).imp_left (begin_goes hb v).overflowed
      · exact .inl hv

theorem Reach.wired {G : Config → Label → Prop} (h : Reach G c) : Wired c :=
  Machine.Reach.invariant (I := Wired) wired_init (fun _ _ _ hw _ hs => hw.step hs) h

/-! ### Feeds -/

/-- While a peer listens, a message to it overtakes one that was computed earlier only if, of
what it has the last word on, that one tells the same. -/
def InOrder {K W : Type} (tells : (PeerId → Option Peer) → Msg → K → Option W) (c : Config)
    (l : Label) : Prop :=
  ∀ seq v m, l.act c = some (.send seq v m) → m.isRoster = true →
    (c.st.peers.get v).isSome → (c.st.outbox v).overflowed = false →
    Post.InOrder (tells c.st.seen) ⟨seq, m⟩ ((pendingNotices v c).erase ⟨seq, m⟩)

/-- Of the messages to one peer, the one computed first is queued first. -/
def inSeq (c : Config) : Act → Bool
  | .send seq v m =>
    !m.isRoster || decide (∀ n ∈ (notices v c.work).erase ⟨seq, m⟩, seq < n.seq)
  | _ => true

lemma inOrder_of_inSeq {K W : Type} {tells : (PeerId → Option Peer) → Msg → K → Option W}
    (h : guard inSeq c l) : InOrder tells c l := by
  intro seq v m ha hm _ _
  have hseq := h _ ha
  rw [inSeq, hm, Bool.not_true, Bool.false_or, decide_eq_true_eq] at hseq
  refine Post.inOrder_of_lt fun n hn => hseq n ?_
  rw [pendingNotices, Multiset.coe_erase, Multiset.mem_coe] at hn
  exact hn

/-- A way to read the messages. -/
structure Feed (K W S : Type) where
  /-- What a message tells of a key, with the peers that ever joined. -/
  tells : (PeerId → Option Peer) → Msg → K → Option W
  /-- How a key is for a peer, where anybody has to know. -/
  now : Peers → PeerId → K → Option W
  start : S
  onMsg : S → Msg → S
  Shows : S → K → W → Prop

lemma tells_ne_of_silent {K W : Type} {tells : Msg → K → Option W} {next : List Act} {k : K} {m : Msg}
    {w : W} (hs : Post.Silent tells ↑(notices v next) k) (hm : m.isRoster = true)
    (hsent : sentTo next v m) : tells m k ≠ some w := by
  obtain ⟨seq, hsend⟩ := hsent
  rw [hs ⟨seq, m⟩ (Multiset.mem_coe.mpr (mem_notices.mpr ⟨hsend, hm⟩))]
  simp

namespace Feed

variable {K W S : Type} (F : Feed K W S)

/-- What a reader has after a queue's messages. -/
def view (log : List Msg) : S := log.foldl F.onMsg F.start

lemma view_append (log : List Msg) (m : Msg) : F.view (log ++ [m]) = F.onMsg (F.view log) m :=
  List.foldl_append ..

/-- What a step tells `v` is right, and is all that changed. -/
structure Covers (v : PeerId) (st : State) (r : Effect) : Prop where
  right : ∀ n ∈ notices v r.next, Post.Right (F.tells r.st.seen) n.msg (F.now r.st.peers v)
  rest : (∀ k, ¬ Post.Silent (F.tells r.st.seen) ↑(notices v r.next) k) ∨
    (st.peers.get v).isSome ∧ ∀ k, Post.Silent (F.tells r.st.seen) ↑(notices v r.next) k →
      (∀ m, F.tells st.seen m k = F.tells r.st.seen m k) ∧
        ∀ w ∈ F.now r.st.peers v k, w ∈ F.now st.peers v k

/-- A reader takes from a message what it tells, and nothing else. -/
structure Reads (c : Config) (v : PeerId) (m : Msg) : Prop where
  tells : ∀ k, ∀ w ∈ F.tells c.st.seen m k, w ∈ F.now c.st.peers v k →
    F.Shows (F.onMsg (F.view (c.st.outbox v).log) m) k w
  silent : ∀ k, F.tells c.st.seen m k = none → ∀ w ∈ F.now c.st.peers v k,
    F.Shows (F.view (c.st.outbox v).log) k w →
      F.Shows (F.onMsg (F.view (c.st.outbox v).log) m) k w

/-- What `v` is still to get leads from what it has to how things are. -/
def Follows (c : Config) (v : PeerId) : Prop :=
  Post.Leads (F.tells c.st.seen) (pendingNotices v c) (F.now c.st.peers v)
    (F.Shows (F.view (c.st.outbox v).log))

variable {F}

lemma Follows.send {seq : ℕ} {m : Msg} (hw : Wired c) (h : F.Follows c v)
    (hst : c'.st = c.st.send v m) (hv : (c.st.peers.get v).isSome)
    (hpending : pendingNotices v c =
      ↑((Act.send seq v m).notice v).toList + pendingNotices v c')
    (hin : m.isRoster = true →
      Post.InOrder (F.tells c.st.seen) ⟨seq, m⟩ ((pendingNotices v c).erase ⟨seq, m⟩))
    (hother : ∀ s m, m.isRoster = false → F.onMsg s m = s)
    (hreads : m.isRoster = true → F.Reads c v m)
    (ho : (c'.st.outbox v).overflowed = false) : F.Follows c' v := by
  have hbox : c'.st.outbox v = (c.st.outbox v).send m := by
    rw [hst]
    exact Function.update_self ..
  rw [hbox] at ho
  have hgoes := Outbox.goes_send (c.st.outbox v) m
  have hopen : (c.st.outbox v).cancelled = false := by
    by_contra hc
    -- only a peer that has left or one that overflowed is cut off
    obtain hover | hleft := hw.deaf v (Bool.eq_true_of_not_eq_false hc)
    · rw [hgoes.overflowed hover] at ho
      cases ho
    · rw [hleft.1] at hv
      cases hv
  have hview : F.view (c'.st.outbox v).log = F.onMsg (F.view (c.st.outbox v).log) m := by
    rw [hbox, Outbox.log_send_of_open hopen ho, view_append]
  have hpeers : c'.st.peers = c.st.peers := by rw [hst]; rfl
  have hseen : c'.st.seen = c.st.seen := by rw [hst]; rfl
  rw [Follows, hview, hpeers, hseen]
  rw [Follows, hpending] at h
  cases hm : m.isRoster with
  | true =>
    rw [Act.notice, if_pos ⟨rfl, hm⟩] at h hpending
    have horder := hin hm
    rw [hpending] at horder
    refine h.arrive ?_ (hreads hm).tells (hreads hm).silent
    simpa using horder
  | false =>
    rw [Act.notice, if_neg (by simp [hm])] at h
    rw [hother _ m hm]
    exact (zero_add (pendingNotices v c')) ▸ h

lemma Follows.compute (hw : Wired c) (hnotifies : Notifies c.st a r) (hst : c'.st = r.st)
    (h : (c.st.peers.get v).isSome → F.Follows c v)
    (hpending : pendingNotices v c' = ↑(notices v r.next) + pendingNotices v c)
    (hcovers : F.Covers v c.st r)
    (hlog : (c'.st.outbox v).log = (c.st.outbox v).log) : F.Follows c' v := by
  have hlater : ∀ u ∈ pendingNotices v c, ∀ n ∈ notices v r.next, u.seq < n.seq := by
    intro u hu n hn
    obtain ⟨hu, hum⟩ := mem_pendingNotices.mp hu
    obtain ⟨hn, hnm⟩ := mem_notices.mp hn
    exact (hw.numbered _ _ _ hu hum).trans_le (hnotifies.numbered _ _ _ hn hnm).1
  rw [Follows, hpending, hlog, hst]
  obtain hall | ⟨hv, hrest⟩ := hcovers.rest
  · exact .reset hcovers.right hall hlater
  · exact (h hv).trans hcovers.right hrest hlater

/-- **A step.** -/
lemma Follows.run {i : ℕ} (hw : Wired c) (hs : step c (.run i ch) = some c')
    (h : (c.st.peers.get v).isSome → (c.st.outbox v).overflowed = false → F.Follows c v)
    (hin : Room.InOrder F.tells c (.run i ch))
    (hcovers : ∀ a r, c.head? i = some a → exec ch a c.st = some r →
      (r.st.peers.get v).isSome → F.Covers v c.st r)
    (hother : ∀ s m, m.isRoster = false → F.onMsg s m = s)
    (hreads : ∀ seq m, .send seq v m ∈ c.work → m.isRoster = true →
      (c.st.peers.get v).isSome → F.Reads c v m)
    (hv : (c'.st.peers.get v).isSome) (ho : (c'.st.outbox v).overflowed = false) :
    F.Follows c' v := by
  obtain ⟨a, r, W, ha, hr, hst, hmem, -, hpending⟩ := pendingNotices_run hs
  obtain ⟨hold, hnew⟩ := hpending v
  have hopen : (c.st.outbox v).overflowed = false := by
    by_contra hover
    have hover := Bool.eq_true_of_not_eq_false hover
    rw [hst] at ho
    obtain hgoes | ⟨-, hbox⟩ := exec_goes hr v
    · rw [hgoes.overflowed hover] at ho
      cases ho
    · rw [hbox] at ho
      rw [show (c.st.outbox v).overflowed = false from ho] at hover
      cases hover
  by_cases hsend : ∃ seq m, a = .send seq v m
  · -- the step queues a message to `v`
    obtain ⟨seq, m, rfl⟩ := hsend
    obtain rfl := Option.some.inj hr
    have hv : (c.st.peers.get v).isSome := by
      rw [hst] at hv
      exact hv
    rw [show notices v (State.go (c.st.send v m) []).next = [] from rfl, Multiset.coe_nil,
      zero_add] at hnew
    rw [← hnew] at hold
    exact (h hv hopen).send hw hst hv hold (fun hm => hin seq v m ha hm hv hopen) hother
      (fun hm => hreads seq m hmem hm hv) ho
  · -- the step computes messages
    have hnone : a.notice v = none := by
      refine Option.eq_none_iff_forall_not_mem.mpr fun n hn => hsend ?_
      obtain ⟨rfl, -⟩ := Act.notice_eq_some.mp hn
      exact ⟨_, _, rfl⟩
    rw [hnone, Option.toList_none, Multiset.coe_nil, zero_add] at hold
    rw [← hold] at hnew
    refine compute hw (hw.notifies hr) hst (fun hv => h hv hopen) hnew
      (hcovers a r ha hr (hst ▸ hv)) ?_
    rw [hst]
    obtain hlog | ⟨seq, m, rfl, -⟩ := exec_log hr v
    · exact hlog
    · exact absurd ⟨seq, m, rfl⟩ hsend

lemma Follows.event {e : Event} (hs : step c (.event e) = some c')
    (h : (c.st.peers.get v).isSome → (c.st.outbox v).overflowed = false → F.Follows c v)
    (hother : ∀ s m, m.isRoster = false → F.onMsg s m = s)
    (hv : (c'.st.peers.get v).isSome) (ho : (c'.st.outbox v).overflowed = false) :
    F.Follows c' v := by
  obtain ⟨st, o, todo, hb, rfl, -⟩ := step_event hs
  obtain ⟨hpeers, hseen, -, htodo⟩ := begin_tells hb
  rw [Pool.st_launch] at hv ho
  have hopen : (c.st.outbox v).overflowed = false := by
    by_contra hover
    rw [(begin_goes hb v).overflowed (Bool.eq_true_of_not_eq_false hover)] at ho
    cases ho
  have hfollows := h (hpeers ▸ hv) hopen
  have hnil : notices v todo = [] := by
    refine List.eq_nil_iff_forall_not_mem.mpr fun n hn => ?_
    obtain ⟨hmem, hm⟩ := mem_notices.mp hn
    have hfalse : n.msg.isRoster = false := eq_false_of_watched htodo _ hmem
    rw [hfalse] at hm
    cases hm
  have hpending : pendingNotices v (c.launch st o todo) = pendingNotices v c := by
    rw [pendingNotices, Pool.work_launch, notices_append, hnil, List.append_nil]
    rfl
  have hview : F.view (st.outbox v).log = F.view (c.st.outbox v).log := by
    obtain hlog | hlog := begin_log hb v
    · rw [hlog]
    · rw [hlog, view_append, hother _ .other rfl]
  rw [Follows, hpending, Pool.st_launch, hview, hpeers, hseen]
  exact hfollows

/-- **Every queue leads to how things are**, in runs whose messages come in order. -/
theorem follows {G : Config → Label → Prop} (hG : ∀ c l, Reach G c → G c l → Room.InOrder F.tells c l)
    (hcovers : ∀ c l a r ch v, Reach G c → G c l → l.act c = some a → exec ch a c.st = some r →
      (r.st.peers.get v).isSome → F.Covers v c.st r)
    (hother : ∀ s m, m.isRoster = false → F.onMsg s m = s)
    (hreads : ∀ c v seq m, Reach G c → .send seq v m ∈ c.work → m.isRoster = true →
      (c.st.peers.get v).isSome → F.Reads c v m)
    (h : Reach G c) : ∀ v, (c.st.peers.get v).isSome → (c.st.outbox v).overflowed = false →
      F.Follows c v := by
  refine Machine.Reach.invariant' (I := fun c => ∀ v, (c.st.peers.get v).isSome →
    (c.st.outbox v).overflowed = false → F.Follows c v) (fun v hv => by cases hv) ?_ h
  intro c l c' hr hfollows hg hs v hv ho
  have hw : Wired c := Reach.wired hr
  cases l with
  | run i ch =>
    exact .run hw hs (hfollows v) (hG c _ hr hg)
      (fun a r ha hexec => hcovers c _ a r ch v hr hg ha hexec) hother
      (fun seq m => hreads c v seq m hr) hv ho
  | event e => exact .event hs (hfollows v) hother hv ho

end Feed

end VoiceHub.Sfu.Room
