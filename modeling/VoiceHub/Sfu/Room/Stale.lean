import Mathlib
import VoiceHub.Sfu.Room.Subscribers

/-!
Tearing down a subscription because its PC closed.

The two sections of `remove_screen_sub` test the PC they were called for again, each against
what it finds, and closing the PC calls them once more. Whatever has replaced the subscription
in between stays; what a late section of the subscribe itself stores is found by nobody.
-/

namespace VoiceHub.Sfu.Room

open VoiceHub.Lib

/-- A step of `remove_screen_sub(v, _, Some(pc))`, or of the closing of `pc` that comes with
it. -/
def Act.ofCall (st : State) (v : PeerId) (pc : PcId) : Act → Prop
  | .removeScreenSub v' _ only | .dropSubscriber v' _ _ only => v' = v ∧ only = some pc
  | .close x | .subClosed x => x = pc ∧ ∃ s, st.subs pc = some ⟨v, s⟩
  | .sendEncode _ event => event = .pause
  | .send _ _ m => m = .screenShareEncodePause
  | _ => False

/-- Nothing but the subscription of `v` by `pc` goes, and nothing but `pc` is closed. -/
structure Confined (v : PeerId) (pc : PcId) (st st' : State) : Prop where
  subOf : ∀ v' p', st'.subOf v' p' = st.subOf v' p' ∨
    v' = v ∧ st.subOf v' p' = some pc ∧ st'.subOf v' p' = none
  subscriber : ∀ s v', st'.subscriber s v' = st.subscriber s v' ∨
    v' = v ∧ st.subscriber s v' = some pc ∧ st'.subscriber s v' = none
  closed : ∀ x, st'.pcClosed x = st.pcClosed x ∨ x = pc

/-- Every entry is one of a PC built for its viewer. -/
def Named (k : Links) : Prop := ∀ v p x, k.att v p = some x → ∃ s, k.subs x = some ⟨v, s⟩

lemma Named.step {k k' : Links} {w w' : Multiset Act} {o : Option Act} (hn : Named k)
    (hk : Built k w) (h : LinkStep k w o k' w') : Named k' := by
  intro v p x hx
  rcases h.att hx with hx | ⟨s, first, hat⟩
  · obtain ⟨s, hs⟩ := hn v p x hx
    exact ⟨s, h.subs hk hs⟩
  · exact ⟨s, h.subs hk (hat.subs hk)⟩

theorem Reach.named {G : Config → Label → Prop} {c : Config} (h : Reach G c) :
    Named c.st.links := by
  refine Machine.Reach.invariant' (I := fun c => Named c.st.links) (fun v p x hx => by cases hx)
    (fun c l c' hr hn _ hl => ?_) h
  exact hn.step (Reach.built hr) (step_link (Reach.exclusive hr) (Reach.oneAtATime hr) hl)

section Call

variable {st : State} {v : PeerId} {pc : PcId} {a : Act} {ch : Choice} {r : Effect}

lemma Confined.refl : Confined v pc st st :=
  ⟨fun _ _ => .inl rfl, fun _ _ => .inl rfl, fun _ => .inl rfl⟩

lemma matched_eq_some {found : Option PcId} {x : PcId}
    (h : State.matched (some pc) found = some x) : x = pc ∧ found = some pc := by
  by_cases hm : found = some pc
  · rw [hm, State.matched, if_pos (.inr rfl)] at h
    exact ⟨(Option.some.inj h).symm, hm⟩
  · rw [matched_eq_none.mpr (.inr ⟨Option.some_ne_none pc, hm⟩)] at h
    cases h

lemma subscriber_removeScreenSub (v p : PeerId) (only : Option PcId) :
    (st.removeScreenSub v p only).st.subscriber = st.subscriber := by
  simp only [State.removeScreenSub, State.go]
  split_ifs <;> rfl

lemma pcClosed_removeScreenSub (v p : PeerId) (only : Option PcId) :
    (st.removeScreenSub v p only).st.pcClosed = st.pcClosed ∧
      (st.removeScreenSub v p only).st.subs = st.subs := by
  simp only [State.removeScreenSub, State.go]
  split_ifs <;> exact ⟨rfl, rfl⟩

lemma removeScreenSub_confined (hn : Named st.links) (p : PeerId) :
    Confined v pc st (st.removeScreenSub v p (some pc)).st ∧
      ∀ b ∈ (st.removeScreenSub v p (some pc)).next,
        b.ofCall (st.removeScreenSub v p (some pc)).st v pc := by
  obtain ⟨hclosed, hsubs⟩ := @pcClosed_removeScreenSub st v p (some pc)
  refine ⟨⟨fun v' p' => ?_, fun s v' => ?_, fun x => ?_⟩, fun b hb => ?_⟩
  · rw [subOf_removeScreenSub]
    simp only [reduceCtorEq, false_or]
    split_ifs with h
    · obtain ⟨rfl, rfl, hsome⟩ := h
      exact .inr ⟨rfl, hsome, rfl⟩
    · exact .inl rfl
  · rw [subscriber_removeScreenSub]
    exact .inl rfl
  · rw [hclosed]
    exact .inl rfl
  · simp only [State.removeScreenSub, State.go, List.mem_append, List.mem_map,
      Option.mem_toList] at hb
    rcases hb with ⟨x, hx, rfl⟩ | ⟨s, -, rfl⟩
    · obtain ⟨rfl, hfound⟩ := matched_eq_some hx
      rw [Act.ofCall, hsubs]
      exact ⟨rfl, hn v p x hfound⟩
    · exact ⟨rfl, rfl⟩

lemma dropSubscriber_confined (hsub : ∀ s v x, st.subscriber s v = some x →
      st.subs x = some ⟨v, s⟩) (p : PeerId) (s : SessionId) :
    Confined v pc st (st.dropSubscriber v p s (some pc)).st ∧
      ∀ b ∈ (st.dropSubscriber v p s (some pc)).next,
        b.ofCall (st.dropSubscriber v p s (some pc)).st v pc := by
  obtain ⟨subs, hrest⟩ := @dropSubscriber_rest st v p s (some pc)
  refine ⟨⟨fun v' p' => ?_, fun s' v' => ?_, fun x => ?_⟩, fun b hb => ?_⟩
  · rw [hrest]
    exact .inl rfl
  · rw [subscriber_dropSubscriber]
    simp only [reduceCtorEq, false_or]
    split_ifs with h
    · obtain ⟨rfl, rfl, hsome⟩ := h
      exact .inr ⟨rfl, hsome, rfl⟩
    · exact .inl rfl
  · rw [hrest]
    exact .inl rfl
  · have hst : (st.dropSubscriber v p s (some pc)).st.subs = st.subs := by rw [hrest]; rfl
    unfold State.dropSubscriber at hb
    cases hm : State.matched (some pc) (st.subscriber s v) with
    | none => simp [hm, State.go] at hb
    | some x =>
      obtain ⟨rfl, hfound⟩ := matched_eq_some hm
      simp only [hm, State.go, List.mem_cons] at hb
      rcases hb with rfl | hb
      · rw [Act.ofCall, hst]
        exact ⟨rfl, s, hsub s v x hfound⟩
      · split_ifs at hb
        · rw [List.mem_singleton.mp hb]
          rfl
        · cases hb

/-- **A teardown stays with its PC**: whatever state a step of the call runs in, it changes
nothing but the subscription by `pc`, and leaves only such steps behind. -/
lemma ofCall_confined (hn : Named st.links)
    (hsub : ∀ s v x, st.subscriber s v = some x → st.subs x = some ⟨v, s⟩)
    (ha : a.ofCall st v pc) (hr : exec ch a st = some r) :
    Confined v pc st r.st ∧ ∀ b ∈ r.next ++ r.spawned.flatten, b.ofCall r.st v pc := by
  have hspawned : r.spawned.flatten = [] := by
    rcases exec_spawned hr with hs | ⟨t, hs⟩
    · rw [hs]
      rfl
    · cases a <;> simp only [Act.ofCall] at ha
      all_goals obtain rfl := Option.some.inj hr
      all_goals
        simp only [State.close, State.subClosed, State.removeScreenSub, State.dropSubscriber,
          State.sendEncode, State.reply, State.go] at hs
        repeat' split at hs
        all_goals cases hs
  rw [hspawned, List.append_nil]
  cases a <;> simp only [Act.ofCall] at ha
  all_goals obtain rfl := Option.some.inj hr
  case removeScreenSub v' p only =>
    -- the first section
    obtain ⟨rfl, rfl⟩ := ha
    exact removeScreenSub_confined hn p
  case dropSubscriber v' p s only =>
    -- the second section
    obtain ⟨rfl, rfl⟩ := ha
    exact dropSubscriber_confined hsub p s
  case send seq op m =>
    exact ⟨⟨fun _ _ => .inl rfl, fun _ _ => .inl rfl, fun _ => .inl rfl⟩,
      fun b hb => by cases hb⟩
  case close x =>
    obtain ⟨rfl, s, hs⟩ := ha
    unfold State.close
    split_ifs
    · exact ⟨.refl, fun b hb => by cases hb⟩
    · refine ⟨⟨fun _ _ => .inl rfl, fun _ _ => .inl rfl, fun y => ?_⟩, fun b hb => ?_⟩
      · by_cases hy : y = x
        · exact .inr hy
        · left
          simp [State.go, hy]
      · -- its `on_closed` comes next
        rw [List.mem_singleton.mp hb]
        exact ⟨rfl, s, hs⟩
  case subClosed x =>
    obtain ⟨rfl, s, hs⟩ := ha
    unfold State.subClosed
    rw [hs]
    dsimp only
    split_ifs
    · exact ⟨.refl, fun b hb => by cases hb⟩
    · refine ⟨.refl, fun b hb => ?_⟩
      rw [List.mem_singleton.mp hb]
      exact ⟨rfl, rfl⟩
  case sendEncode p event =>
    subst ha
    unfold State.sendEncode
    split
    · exact ⟨.refl, fun b hb => by cases hb⟩
    · refine ⟨⟨fun _ _ => .inl rfl, fun _ _ => .inl rfl, fun _ => .inl rfl⟩, fun b hb => ?_⟩
      obtain rfl := List.mem_singleton.mp hb
      rfl

lemma ofCall_stays {c c' : Config} {l : Label} {G : Config → Label → Prop}
    (hr : Reach G c) (hl : step c l = some c') (ha : a.ofCall c.st v pc) :
    a.ofCall c'.st v pc := by
  have hlink := step_link (Reach.exclusive hr) (Reach.oneAtATime hr) hl
  cases a <;> simp only [Act.ofCall] at ha ⊢
  case close x | subClosed x =>
    obtain ⟨rfl, s, hs⟩ := ha
    exact ⟨rfl, s, hlink.subs (Reach.built hr) hs⟩
  all_goals exact ha

end Call

/-! ### A session that is not registered has no viewers -/

/-- A section of a subscribe that has still to reach session `s`. -/
def Act.views (s : SessionId) : Act → Bool
  | .subscribePublisher _ s' _ | .insertSubscriber _ _ s' _ => s' = s
  | _ => false

structure Unviewed (c : Config) : Prop where
  lt : ∀ a ∈ c.work, ∀ s, a.views s = true → s < c.st.next
  subLt : ∀ s v x, c.st.subscriber s v = some x → s < c.st.next
  views : ∀ id s, .registerSession id s ∈ c.work → ∀ a ∈ c.work, a.views s = false
  subscriber : ∀ id s, .registerSession id s ∈ c.work → ∀ v, c.st.subscriber s v = none

section Unviewed

variable {st : State} {a b : Act} {ch : Choice} {r : Effect} {s : SessionId} {id : PeerId}
  {c c' : Config} {l : Label} {G : Config → Label → Prop}

lemma mem_linkActs_of_views {acts : List Act} (hb : b ∈ acts) (hv : b.views s = true) :
    b ∈ linkActs acts := by
  refine List.mem_filter.mpr ⟨hb, ?_⟩
  cases b <;> simp [Act.views] at hv <;> rfl

lemma exec_views (hpub : ∀ p s, st.owned p = some s → (st.sessions s).publisherId = p)
    (hr : exec ch a st = some r) (hb : b ∈ r.next) (hv : b.views s = true) :
    a.views s = true ∨ ∃ p, st.owned p = some s := by
  have hmem := mem_linkActs_of_views hb hv
  have hlink := exec_link hpub hr
  generalize hk : st.links = k at hlink
  generalize hk' : r.st.links = k' at hlink
  generalize hnext : linkActs r.next = next at hlink hmem
  cases hlink with
  | remove =>
    obtain ⟨s', -, rfl⟩ := List.mem_map.mp hmem
    cases hv
  | close | insert =>
    rw [List.mem_singleton.mp hmem] at hv
    cases hv
  | endAll | claim =>
    obtain ⟨v', rfl⟩ := mem_detachAll hmem
    cases hv
  | build =>
    rw [List.mem_singleton.mp hmem] at hv
    exact .inl hv
  | @subscribe v p s' offer =>
    right
    refine ⟨p, ?_⟩
    obtain rfl := Option.some.inj hr
    simp only [State.screenShareSubscribe] at hb
    split at hb
    · simp only [State.reply, State.go, List.mem_map] at hb
      obtain ⟨x, -, rfl⟩ := hb
      cases hv
    · next hown =>
      split_ifs at hb
      · cases hb
      · rw [List.mem_singleton.mp hb] at hv
        rw [hown, of_decide_eq_true hv]
  | _ => cases hmem

lemma exec_registers (hr : exec ch a st = some r) (hb : .registerSession id s ∈ r.next) :
    s = st.next := by
  have hmem : .registerSession id s ∈ coreActs r.next := List.mem_filter.mpr ⟨hb, rfl⟩
  have hown := exec_own hr
  generalize hk : st.core = k at hown
  generalize r.st.core = k' at hown
  generalize coreActs r.next = next at hown hmem
  cases hown with
  | alloc =>
    cases List.mem_singleton.mp hmem
    rw [← hk]
    rfl
  | leave | claim => simp at hmem
  | close => simp at hmem
  | stop | find | subscribers => simp at hmem
  | _ => cases hmem

lemma step_work (hl : step c l = some c') (hb : b ∈ c'.work) :
    b ∈ c.work ∨ (∃ a r ch, l.act c = some a ∧ a ∈ c.work ∧ exec ch a c.st = some r ∧
      c'.st = r.st ∧ (b ∈ r.next ∨ ∃ t, b = .findSession t)) ∨
      (∀ s, b.views s = false) ∧ ∀ id s, b ≠ .registerSession id s := by
  cases l with
  | run i ch =>
    obtain ⟨a, r, W, ha, hr, hst, hw, hw'⟩ := Pool.advance_work hl
    have haw : a ∈ c.work := hw.mem_iff.mpr List.mem_cons_self
    rcases List.mem_append.mp (hw'.mem_iff.mp hb) with hb | hb
    · right
      left
      refine ⟨a, r, ch, ha, haw, hr, hst, ?_⟩
      rcases List.mem_append.mp hb with hb | hb
      · exact .inl hb
      · rcases exec_spawned hr with hs | ⟨t, hs⟩ <;> rw [hs] at hb
        · cases hb
        · simp only [List.flatten_cons, List.flatten_nil, List.append_nil,
            List.mem_singleton] at hb
          exact .inr ⟨t, hb⟩
    · exact .inl (hw.mem_iff.mpr (List.mem_cons_of_mem a hb))
  | event e =>
    obtain ⟨st, o, todo, he, rfl, -⟩ := step_event hl
    rw [Pool.work_launch, List.mem_append] at hb
    rcases hb with hb | hb
    · exact .inl hb
    · have hnew : ∀ b ∈ todo, (∀ s, b.views s = false) ∧ ∀ id s, b ≠ .registerSession id s := by
        cases e <;> simp only [Event.begin, Event.begin.message] at he <;> (try split at he) <;>
          cases he <;> simp [Act.views]
      exact .inr (.inr (hnew b hb))

lemma owned_lt (hr : Reach G c) {p : PeerId} (h : c.st.owned p = some s) : s < c.st.next := by
  by_contra hge
  exact ((Reach.exclusive hr).fresh s (not_lt.mp hge)).owner p (owner_eq_some.mpr h)

lemma Unviewed.step (hr : Reach G c) (h : Unviewed c) (hl : step c l = some c') :
    Unviewed c' := by
  have hk := Reach.exclusive hr
  have hlink := step_link hk (Reach.oneAtATime hr) hl
  have hle : c.st.next ≤ c'.st.next := hlink.next_le
  have hpub : ∀ p s, c.st.owned p = some s → (c.st.sessions s).publisherId = p :=
    fun p s hp => hk.publisher p s (owner_eq_some.mpr hp)
  have hviews : ∀ b ∈ c'.work, ∀ s, b.views s = true →
      (∃ a ∈ c.work, a.views s = true) ∨ ∃ p, c.st.owned p = some s := by
    intro b hb s hv
    rcases step_work hl hb with hb | ⟨a, r, ch, -, haw, hex, -, hb | ⟨t, rfl⟩⟩ | ⟨hno, -⟩
    · exact .inl ⟨b, hb, hv⟩
    · exact (exec_views hpub hex hb hv).imp_left fun ha => ⟨a, haw, ha⟩
    · cases hv
    · rw [hno s] at hv
      cases hv
  have hreg : ∀ id s, .registerSession id s ∈ c'.work →
      .registerSession id s ∈ c.work ∨ s = c.st.next := by
    intro id s hb
    rcases step_work hl hb with hb | ⟨a, r, ch, -, -, hex, -, hb | ⟨t, ht⟩⟩ | ⟨-, hno⟩
    · exact .inl hb
    · exact .inr (exec_registers hex hb)
    · cases ht
    · exact absurd rfl (hno id s)
  have hsub : ∀ s v x, c'.st.subscriber s v = some x →
      c.st.subscriber s v = some x ∨ ∃ a ∈ c.work, a.views s = true := by
    intro s v x hx
    rcases hlink.sub hx with hx | ⟨p, first, W, hin⟩
    · exact .inl hx
    · have hmem : .insertSubscriber v p s x ∈ pendingLinks c :=
        hin.before ▸ Multiset.mem_cons_self ..
      exact .inr ⟨_, (mem_pendingOf.mp hmem).1, decide_eq_true rfl⟩
  -- nobody looks at a session that is being registered, or is new
  have hnone : ∀ id s, .registerSession id s ∈ c'.work → (∀ a ∈ c.work, a.views s = false) ∧
      (∀ p, c.st.owned p ≠ some s) ∧ ∀ v, c.st.subscriber s v = none := by
    intro id s hb
    rcases hreg id s hb with hb | rfl
    · have hst := hk.starting id s (mem_pendingOf.mpr ⟨hb, rfl⟩)
      exact ⟨h.views id s hb, fun p hp => hst.unknown.owner p (owner_eq_some.mpr hp),
        h.subscriber id s hb⟩
    · refine ⟨fun a ha => ?_, fun p hp => ?_, fun v => ?_⟩
      · by_contra hv
        exact lt_irrefl _ (h.lt a ha _ (Bool.eq_true_of_not_eq_false hv))
      · exact lt_irrefl _ (owned_lt hr hp)
      · by_contra hx
        obtain ⟨x, hx⟩ := Option.ne_none_iff_exists'.mp hx
        exact lt_irrefl _ (h.subLt _ v x hx)
  constructor
  · -- what looks at a session looked at it before, or at one that is owned
    intro b hb s hv
    rcases hviews b hb s hv with ⟨a, ha, hav⟩ | ⟨p, hp⟩
    · exact (h.lt a ha s hav).trans_le hle
    · exact (owned_lt hr hp).trans_le hle
  · intro s v x hx
    rcases hsub s v x hx with hx | ⟨a, ha, hav⟩
    · exact (h.subLt s v x hx).trans_le hle
    · exact (h.lt a ha s hav).trans_le hle
  · -- a session that is registered is looked at by nobody
    intro id s hb a ha
    obtain ⟨hv, ho, -⟩ := hnone id s hb
    by_contra hav
    rcases hviews a ha s (Bool.eq_true_of_not_eq_false hav) with ⟨a', ha', hv'⟩ | ⟨p, hp⟩
    · rw [hv a' ha'] at hv'
      cases hv'
    · exact ho p hp
  · intro id s hb v
    obtain ⟨hv, -, hs⟩ := hnone id s hb
    by_contra hx
    obtain ⟨x, hx⟩ := Option.ne_none_iff_exists'.mp hx
    rcases hsub s v x hx with hx | ⟨a, ha, hav⟩
    · rw [hs v] at hx
      cases hx
    · rw [hv a ha] at hav
      cases hav

theorem Reach.unviewed (h : Reach G c) : Unviewed c := by
  refine Machine.Reach.invariant' (I := Unviewed) ?_ (fun c l c' hr hu _ hl => hu.step hr hl) h
  exact ⟨fun a ha => (by cases ha), fun s v x hx => (by cases hx), fun id s ha => (by cases ha),
    fun id s ha => (by cases ha)⟩

end Unviewed

/-! ### Calling it again -/

/-- A section of a subscribe that stores `pc` for `v`: under `p`, or in an open session. -/
def Act.stores (st : State) (v p : PeerId) (pc : PcId) : Act → Bool
  | .attachSub v' p' _ x _ => v' = v ∧ p' = p ∧ x = pc ∧ (st.peers.get v).isSome
  | .insertSubscriber v' _ s x => v' = v ∧ x = pc ∧ (st.sessions s).closed = false
  | _ => false

/-- No section stores a PC that has been torn down. -/
def unstored (v p : PeerId) (pc : PcId) (c : Config) (a : Act) : Bool := !a.stores c.st v p pc

/-- After the first section of a call: nothing names `pc` any more, but for the session the
second section is about to look at. -/
structure Torn (v p : PeerId) (pc : PcId) (left : Option SessionId) (c : Config) : Prop where
  entry : c.st.subOf v p ≠ some pc
  session : ∀ s, c.st.owned p = some s → left = some s ∨ c.st.subscriber s v ≠ some pc

section Again

variable {v p : PeerId} {pc : PcId} {left : Option SessionId} {c c' c₁ c₂ : Config} {l : Label}
  {s : SessionId} {st : State} {G : Config → Label → Prop}

lemma CoreStep.takes {k k' : Core} {w w' : Multiset Act} {o : Option Act}
    (h : CoreStep k w o k' w') (ho : k'.owner p = some (some s)) :
    k.owner p = some (some s) ∨ .registerSession p s ∈ w ∨
      ∃ t, o = some (.screenShareResume p t) := by
  cases h with
  | run h hw =>
    cases h with
    | join =>
      simp only at ho
      split_ifs at ho
      · cases ho
      · exact .inl ho
    | leave =>
      simp only [Function.update_apply] at ho
      split_ifs at ho
      exact .inl ho
    | @register id s' =>
      simp only [Function.update_apply] at ho
      split_ifs at ho with hp
      · subst hp
        cases ho
        exact .inr (.inl (by simp [hw, Act.isCore]))
      · exact .inl ho
    | clear =>
      simp only at ho
      split_ifs at ho
      · cases ho
      · exact .inl ho
    | @claim id t s' =>
      simp only [Function.update_apply] at ho
      split_ifs at ho with hp
      · subst hp
        exact .inr (.inr ⟨t, rfl⟩)
      · exact .inl ho
    | _ => exact .inl ho
  | _ => exact .inl ho

lemma resume_drains (st : State) (ord : Order) (t : Token) :
    (st.screenShareResume ord p t).st.owned p = st.owned p ∨
      ∃ s, (st.screenShareResume ord p t).st.owned p = some s ∧
        ∀ v, (st.screenShareResume ord p t).st.subscriber s v = none := by
  unfold State.screenShareResume
  split
  · exact .inl rfl
  · next s hs =>
    dsimp only
    split
    · exact .inl rfl
    · split
      · exact .inl rfl
      · next e he =>
        split
        · exact .inl rfl
        · split
          · exact .inl rfl
          · refine .inr ⟨s, ?_, fun v => ?_⟩
            · simp [State.go, State.owned, State.setSession, Peers.get_modify, he]
            · simp [State.go, State.subscriber, State.setSession]

/-- What was torn down stays so, as long as nothing stores it again. -/
lemma Torn.step (hr : Reach G c) (h : Torn v p pc left c) (hg : guard (unstored v p pc) c l)
    (hl : step c l = some c') : Torn v p pc left c' := by
  have hk := Reach.exclusive hr
  have hlink := step_link hk (Reach.oneAtATime hr) hl
  constructor
  · intro hx
    rcases hlink.att hx with hx | ⟨s, first, hat⟩
    · exact h.entry hx
    · have hstore := hg _ hat.act
      have hconn : (c.st.peers.get v).isSome = true := hat.conn
      simp [unstored, Act.stores, hconn] at hstore
  · intro s ho
    rw [or_iff_not_imp_right, not_not]
    intro hx
    rcases hlink.sub hx with hold | ⟨q, first, W, hin⟩
    · change c.st.subscriber s v = some pc at hold
      rcases (step_core hl).takes (owner_eq_some.mpr ho) with ho' | hreg | ⟨t, ht⟩
      · -- the publisher had the session before
        exact (h.session s (owner_eq_some.mp ho')).resolve_right (not_not.mpr hold)
      · -- it has just registered it, and nobody looks at a new session
        have hnone := (Reach.unviewed hr).subscriber p s (mem_pendingOf.mp hreg).1 v
        rw [hold] at hnone
        cases hnone
      · -- it has just resumed it, which drains the subscribers
        by_cases hown : c.st.owned p = some s
        · exact (h.session s hown).resolve_right (not_not.mpr hold)
        · cases l with
          | event e => cases ht
          | run i ch =>
            obtain ⟨a, r, W, ha, hex, hst, -⟩ := Pool.advance_work hl
            obtain rfl : a = .screenShareResume p t := Option.some.inj (ha.symm.trans ht)
            obtain rfl := Option.some.inj hex
            rw [hst] at ho hx
            rcases resume_drains (p := p) c.st ch.order t with hsame | ⟨s', hs', hnone⟩
            · rw [hsame] at ho
              exact absurd ho hown
            · obtain rfl : s' = s := Option.some.inj (hs'.symm.trans ho)
              rw [hnone v] at hx
              cases hx
    · -- the subscription is stored again, against the guard
      have hstore := hg _ hin.act
      have hopen : (c.st.sessions s).closed = false := hin.opened
      simp [unstored, Act.stores, hopen] at hstore

lemma Torn.reach (hr : Reach Machine.free c) (h : Torn v p pc left c)
    (hcc : Machine.Reach Room.step (guard (unstored v p pc)) c c') : Torn v p pc left c' :=
  Machine.Reach.invariant' (I := Torn v p pc left) h
    (fun _ _ _ hcd ht hg hl => ht.step (hr.trans hcd.to_free) hg hl) hcc

/-- A call of `remove_screen_sub(v, p, Some(pc))` that begins in `c` is over in `d`. Whatever
runs between its sections meets `G`. -/
inductive Called (G : Config → Label → Prop) (v p : PeerId) (pc : PcId) (c d : Config) : Prop
  /-- `p` owns no session: there is no second section. -/
  | unowned (l : Label) (ha : l.act c = some (.removeScreenSub v p (some pc)))
    (hl : step c l = some d) (ho : c.st.owned p = none)
  | owned (l l' : Label) (s : SessionId) (c' d' : Config)
    (ha : l.act c = some (.removeScreenSub v p (some pc))) (hl : step c l = some c')
    (ho : c.st.owned p = some s) (hreach : Machine.Reach step G c' d')
    (ha' : l'.act d' = some (.dropSubscriber v p s (some pc))) (hl' : step d' l' = some d)

/-- Called again in `c`, neither section changes or closes anything, whatever runs between them
that meets `G`. -/
structure Again (G : Config → Label → Prop) (v p : PeerId) (pc : PcId) (c : Config) : Prop where
  first : ∀ ch, exec ch (.removeScreenSub v p (some pc)) c.st =
    some (c.st.go ((c.st.owned p).toList.map fun s => .dropSubscriber v p s (some pc)))
  second : ∀ s, c.st.owned p = some s → ∀ c', Machine.Reach step G c c' → ∀ ch,
    exec ch (.dropSubscriber v p s (some pc)) c'.st = some (c'.st.go [])

lemma step_exec {a : Act} (ha : l.act c = some a) (hl : step c l = some c') :
    ∃ ch r, exec ch a c.st = some r ∧ c'.st = r.st := by
  cases l with
  | event e => cases ha
  | run i ch =>
    obtain ⟨b, r, W, hb, hr, hst, -⟩ := Pool.advance_work hl
    obtain rfl : b = a := Option.some.inj (hb.symm.trans ha)
    exact ⟨ch, r, hr, hst⟩

lemma owned_removeScreenSub (v p q : PeerId) (only : Option PcId) :
    (st.removeScreenSub v p only).st.owned q = st.owned q := by
  simp only [State.removeScreenSub, State.go]
  split_ifs
  · simp only [State.detach, State.owned, Peers.get_modify]
    split_ifs with hq
    · subst hq
      cases st.peers.get q <;> rfl
    · rfl
  · rfl

lemma torn_of_first (ha : l.act c = some (.removeScreenSub v p (some pc)))
    (hl : step c l = some c') : Torn v p pc (c.st.owned p) c' := by
  obtain ⟨ch, r, hr, hst⟩ := step_exec ha hl
  obtain rfl := Option.some.inj hr
  constructor
  · rw [hst, subOf_removeScreenSub]
    intro hx
    simp only [reduceCtorEq, false_or, true_and] at hx
    split_ifs at hx with h
    exact h hx
  · intro s ho
    rw [hst, owned_removeScreenSub] at ho
    exact .inl ho

lemma torn_of_second (h : Torn v p pc (some s) c)
    (ha : l.act c = some (.dropSubscriber v p s (some pc))) (hl : step c l = some c') :
    Torn v p pc none c' := by
  obtain ⟨ch, r, hr, hst⟩ := step_exec ha hl
  obtain rfl := Option.some.inj hr
  obtain ⟨subs, hrest⟩ := @dropSubscriber_rest c.st v p s (some pc)
  constructor
  · rw [hst, hrest]
    exact h.entry
  · intro s' ho
    right
    rw [hst, hrest] at ho
    rw [hst, subscriber_dropSubscriber]
    intro hx
    simp only [reduceCtorEq, false_or, true_and] at hx
    split_ifs at hx with hs
    rcases h.session s' ho with hleft | hno
    · cases hleft
      exact hs ⟨rfl, hx⟩
    · exact hno hx

lemma Torn.again (hr : Reach Machine.free c) (h : Torn v p pc none c) :
    Again (guard (unstored v p pc)) v p pc c := by
  constructor
  · intro ch
    have hnone : State.matched (some pc) (c.st.subOf v p) = none :=
      matched_eq_none.mpr (.inr ⟨Option.some_ne_none pc, h.entry⟩)
    simp [exec, State.removeScreenSub, hnone]
  · intro s ho c' hcc ch
    have hno : c'.st.subscriber s v ≠ some pc := by
      refine Machine.Reach.invariant' (I := fun c => c.st.subscriber s v ≠ some pc)
        ((h.session s ho).resolve_left (Option.some_ne_none s).symm)
        (fun d l d' hcd hd hg hl hx => ?_) hcc
      have hrd := hr.trans hcd.to_free
      have hlink := step_link (Reach.exclusive hrd) (Reach.oneAtATime hrd) hl
      rcases hlink.sub hx with hx | ⟨q, first, W, hin⟩
      · exact hd hx
      · have hstore := hg _ hin.act
        have hopen : (d.st.sessions s).closed = false := hin.opened
        simp [unstored, Act.stores, hopen] at hstore
    have hnone : State.matched (some pc) (c'.st.subscriber s v) = none :=
      matched_eq_none.mpr (.inr ⟨Option.some_ne_none pc, hno⟩)
    simp [exec, State.dropSubscriber, hnone]

end Again

/-- **A stale close is harmless.** Whatever state the steps of a call run in, they change
nothing but the subscription of `v` by `pc` and close nothing but `pc`; and as long as no late
section of the subscribe stores `pc` after the call has begun, calling it again changes
nothing more. -/
theorem stale_close (v p : PeerId) (pc : PcId) :
    (∀ c, Reach Machine.free c → ∀ a, a.ofCall c.st v pc →
      (∀ ch r, exec ch a c.st = some r →
        Confined v pc c.st r.st ∧ ∀ b ∈ r.next ++ r.spawned.flatten, b.ofCall r.st v pc) ∧
      ∀ l c', step c l = some c' → a.ofCall c'.st v pc) ∧
    ∀ c d e, Reach Machine.free c → Called (guard (unstored v p pc)) v p pc c d →
      Machine.Reach step (guard (unstored v p pc)) d e →
        Again (guard (unstored v p pc)) v p pc e := by
  constructor
  · intro c hr a ha
    exact ⟨fun ch r hex => ofCall_confined hr.named hr.built.sub ha hex,
      fun l c' hl => ofCall_stays hr hl ha⟩
  · intro c d e hr hcall hde
    have htorn : Reach Machine.free d ∧ Torn v p pc none d := by
      cases hcall with
      | unowned l ha hl ho => exact ⟨hr.tail l trivial hl, ho ▸ torn_of_first ha hl⟩
      | owned l l' s c' d' ha hl ho hreach ha' hl' =>
        have hrc' := hr.tail l trivial hl
        have hfirst : Torn v p pc (some s) c' := ho ▸ torn_of_first ha hl
        have hd' := hrc'.trans hreach.to_free
        exact ⟨hd'.tail l' trivial hl', torn_of_second (hfirst.reach hrc' hreach) ha' hl'⟩
    obtain ⟨hrd, hd⟩ := htorn
    exact (hd.reach hrd hde).again (hrd.trans hde.to_free)

/-- The subscriber PC of an attached subscription dies; its call is about to begin. -/
def dying : List Label := subscribed ++ [.event (.subPcDied 2), .run 4 .plain, .run 4 .plain]

/-- Its first section has run, -/
def detached : List Label := dying ++ [.run 4 .plain]

/-- the PC is closed, -/
def shut : List Label := detached ++ [.run 4 .plain]

/-- and the call is over. -/
def dead : List Label := shut ++ [.run 4 .plain]

theorem stale_close_dead : Again (guard (unstored "p2" "p1" 2)) "p2" "p1" 2 (after dead) := by
  have hdying : Reach Machine.free (after dying) :=
    reach_after (by decide +kernel) (by decide +kernel)
  have hcall : Called (guard (unstored "p2" "p1" 2)) "p2" "p1" 2 (after dying) (after dead) := by
    refine .owned (.run 4 .plain) (.run 4 .plain) 1 (after detached) (after shut)
      (by decide +kernel) (step_after (by decide +kernel)) (by decide +kernel) ?_
      (by decide +kernel) (step_after (by decide +kernel))
    exact reach_after_append (by decide +kernel) (by decide +kernel)
  exact (stale_close "p2" "p1" 2).2 _ _ _ hdying hcall .init

/-- The PC dies before its subscription is attached; the first section finds nothing, -/
def dyingEarly : List Label :=
  subscribing ++ [.event (.subPcDied 2), .run 4 .plain, .run 4 .plain]

def passedOver : List Label := dyingEarly ++ [.run 4 .plain]

/-- it is attached between the two sections of the call, -/
def attachedLate : List Label := passedOver ++ [.run 3 .plain]

/-- and the call is over. -/
def deadEarly : List Label := attachedLate ++ [.run 4 .plain]

/-- Called again, `remove_screen_sub` then finds the dead subscription and takes it away. -/
theorem stale_close_repeats : ¬ ∀ (v p : PeerId) (pc : PcId) (c d : Config),
    Reach Machine.free c → Called Machine.free v p pc c d → Again Machine.free v p pc d := by
  intro h
  have hcall : Called Machine.free "p2" "p1" 2 (after dyingEarly) (after deadEarly) := by
    refine .owned (.run 4 .plain) (.run 4 .plain) 1 (after passedOver) (after attachedLate)
      (by decide +kernel) (step_after (by decide +kernel)) (by decide +kernel) ?_
      (by decide +kernel) (step_after (by decide +kernel))
    exact reach_after_append (Machine.meets_free _ _) (by decide +kernel)
  have hagain := h "p2" "p1" 2 _ _ (reach_after (by decide +kernel) (by decide +kernel)) hcall
  have hnext := congrArg (Option.map fun r => r.next.length) (hagain.first .plain)
  revert hnext
  decide +kernel

end VoiceHub.Sfu.Room
