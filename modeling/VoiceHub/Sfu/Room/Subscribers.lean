import Mathlib
import VoiceHub.Sfu.Room.Links

/-!
The two halves of a subscription agree.

A viewer's entry is doomed while a step that will take it away is pending. The steps of the
viewer's own messages keep an entry that is not doomed and its session's half together, and
so do the steps of closing PCs; what can part them is a step that attaches an entry whose
other half has gone in between.
-/

namespace VoiceHub.Sfu.Room

open VoiceHub.Lib

/-- The entry `x` of `v` under `p` is about to be taken away. -/
def Doomed (k : Links) (w : Multiset Act) (v p : PeerId) (x : PcId) : Prop :=
  .detach v p ∈ w ∨ ∃ s subs, .endSubscribers s subs ∈ w ∧ x ∈ subs ∧ k.publisher s = p

/-- The steps that may replace or take away what a session has for a viewer. -/
def Act.replaces (v : PeerId) (s : SessionId) (x : PcId) : Act → Prop
  | .subscribePublisher v' s' _ => v' = v ∧ s' = s
  | .insertSubscriber v' _ s' _ => v' = v ∧ s' = s
  | .dropSubscriber v' _ s' only => v' = v ∧ s' = s ∧ (only = none ∨ only = some x)
  | _ => False

/-- A PC on its way into an entry. -/
def Act.brings (v : PeerId) (s : SessionId) (x : PcId) : Act → Prop
  | .insertSubscriber v' _ s' x' | .attachSub v' _ s' x' _ => v' = v ∧ s' = s ∧ x' = x
  | _ => False

/-- A session names a PC only under the viewer it was built for. -/
structure Built (k : Links) (w : Multiset Act) : Prop where
  subsLt : ∀ x y, k.subs x = some y → x < k.next
  sub : ∀ s v x, k.sub s v = some x → k.subs x = some ⟨v, s⟩
  brought : ∀ a ∈ w, ∀ v s x, a.brings v s x → k.subs x = some ⟨v, s⟩

structure Linked (k : Links) (w : Multiset Act) : Prop extends Built k w where
  opened : ∀ s, k.closed s = false → s < k.next
  closed : ∀ s v, k.closed s = true → k.sub s v = none
  ending : ∀ s subs, .endSubscribers s subs ∈ w → s < k.next ∧ k.closed s = true
  att : ∀ v p x, k.att v p = some x → ∃ s, k.subs x = some ⟨v, s⟩
  unattached : ∀ a ∈ w, ∀ v s x, a.brings v s x → ∀ p, k.att v p ≠ some x
  /-- An entry and its other half are under the session's publisher. -/
  same : ∀ v p x s, k.att v p = some x → k.sub s v = some x →
    k.publisher s = p ∨ Doomed k w v p x
  /-- No step that parts the two halves is pending. -/
  apart : ∀ a ∈ w, ∀ v s x, a.replaces v s x → ∀ p, k.att v p = some x → k.sub s v = some x →
    Doomed k w v p x
  linked : ∀ v p x, k.att v p = some x →
    (∃ s, k.sub s v = some x ∧ k.publisher s = p) ∨ Doomed k w v p x

section Step

variable {k k' : Links} {w w' : Multiset Act} {o : Option Act}

lemma LinkStep.next_le (h : LinkStep k w o k' w') : k.next ≤ k'.next := by
  cases h with
  | run h hw => cases h <;> simp_all
  | begin => exact le_rfl

lemma LinkStep.subs (h : LinkStep k w o k' w') (hk : Built k w) {x : PcId} {y : ScreenSub}
    (hx : k.subs x = some y) : k'.subs x = some y := by
  have hne : x ≠ k.next := (hk.subsLt x y hx).ne
  cases h with
  | run h hw =>
    cases h with
    | build | fail => simpa [hne] using hx
    | _ => exact hx
  | begin => exact hx

lemma LinkStep.keeps (h : LinkStep k w o k' w') {a : Act} (ha : a ∈ w) :
    a ∈ w' ∨ o = some a := by
  cases h with
  | @run b _ _ _ h hw =>
    subst hw
    rcases Multiset.mem_add.mp ha with ha | ha
    · right
      by_cases hb : b.isLink = true
      · simp only [watched_cons, hb, if_true, watched_nil, Multiset.coe_singleton,
          Multiset.mem_singleton] at ha
        rw [ha]
      · simp [hb] at ha
    · exact .inl (Multiset.mem_add.mpr (.inr ha))
  | begin => exact .inl ha

lemma LinkStep.closed_mono (h : LinkStep k w o k' w') {s : SessionId} (hs : s < k.next)
    (hc : k.closed s = true) : k'.closed s = true := by
  cases h with
  | run h hw =>
    cases h with
    | alloc => simpa [hs.ne] using hc
    | close => simp [Function.update_apply, hc]
    | _ => exact hc
  | begin => exact hc

lemma LinkStep.publisher_closed (h : LinkStep k w o k' w') {s : SessionId} (hs : s < k.next)
    (hc : k.closed s = true) : k'.publisher s = k.publisher s := by
  cases h with
  | run h hw =>
    cases h with
    | alloc => simp [hs.ne]
    | @claim _ _ s' _ ho =>
      have hne : s ≠ s' := by rintro rfl; rw [ho] at hc; cases hc
      simp [hne]
    | _ => rfl
  | begin => rfl

/-- A step of `v`'s own message attaches `x` to its entry. -/
structure Attaches (k : Links) (w : Multiset Act) (o : Option Act) (k' : Links) (w' : Multiset Act)
    (v p : PeerId) (s : SessionId) (x : PcId) (first : Bool) : Prop where
  act : o = some (.attachSub v p s x first)
  conn : k.conn v = true
  before : w = .attachSub v p s x first ::ₘ w'
  after : k' = { k with att := fun v' p' => if v' = v ∧ p' = p then some x else k.att v' p' }
  sole : ∀ b ∈ w', b.viewer ≠ some v

/-- A step of `v`'s own message inserts `x` into its session. -/
structure Inserts (k : Links) (w : Multiset Act) (o : Option Act) (k' : Links) (w' : Multiset Act)
    (v p : PeerId) (s : SessionId) (x : PcId) (first : Bool) (W : Multiset Act) : Prop where
  act : o = some (.insertSubscriber v p s x)
  opened : k.closed s = false
  before : w = .insertSubscriber v p s x ::ₘ W
  left : w' = .attachSub v p s x first ::ₘ W
  after : k' = { k with sub := fun s' v' => if s' = s ∧ v' = v then some x else k.sub s' v' }
  sole : ∀ b ∈ W, b.viewer ≠ some v

lemma LinkStep.att (h : LinkStep k w o k' w') {v p : PeerId} {x : PcId}
    (hx : k'.att v p = some x) :
    k.att v p = some x ∨ ∃ s first, Attaches k w o k' w' v p s x first := by
  cases h with
  | @run _ _ _ W h hw hv =>
    cases h with
    | shrink _ h => exact .inl (h v p x hx)
    | remove | detach =>
      simp only at hx
      split_ifs at hx
      exact .inl hx
    | @attach v' p' s pc first hconn =>
      simp only at hx
      split_ifs at hx with heq
      · obtain ⟨rfl, rfl⟩ := heq
        cases hx
        refine .inr ⟨s, first, rfl, hconn, ?_, rfl, ?_⟩
        · simp [hw, Act.isLink]
        · simpa using hv v rfl
      · exact .inl hx
    | _ => exact .inl hx
  | begin => exact .inl hx

lemma LinkStep.sub (h : LinkStep k w o k' w') {s : SessionId} {v : PeerId} {x : PcId}
    (hx : k'.sub s v = some x) :
    k.sub s v = some x ∨ ∃ p first W, Inserts k w o k' w' v p s x first W := by
  cases h with
  | @run _ _ _ W h hw hv =>
    cases h with
    | alloc | close | claim =>
      simp only [Function.update_apply] at hx
      split_ifs at hx
      exact .inl hx
    | drop =>
      simp only at hx
      split_ifs at hx
      exact .inl hx
    | @insert v' p s' pc first hc =>
      simp only at hx
      split_ifs at hx with heq
      · obtain ⟨rfl, rfl⟩ := heq
        cases hx
        exact .inr ⟨p, first, W, rfl, hc, hw, rfl, rfl, hv v rfl⟩
      · exact .inl hx
    | _ => exact .inl hx
  | begin => exact .inl hx

lemma LinkStep.doomed (h : LinkStep k w o k' w') (hk : Linked k w) {v p : PeerId} {x : PcId}
    (hd : Doomed k w v p x) (hx : k'.att v p = some x) : Doomed k' w' v p x := by
  rcases hd with hd | ⟨s, subs, hd, hmem, hp⟩
  · rcases h.keeps hd with hd | ho
    · exact .inl hd
    · cases h with
      | run h hw =>
        cases ho
        cases h with
        | idle ha | shrink ha => cases ha
        -- the section removes the entry
        | detach => simp at hx
      | begin => cases ho
  · obtain ⟨hlt, hc⟩ := hk.ending s subs hd
    rcases h.keeps hd with hd | ho
    · exact .inr ⟨s, subs, hd, hmem, (h.publisher_closed hlt hc).trans hp⟩
    · left
      cases h with
      | run h hw =>
        cases ho
        cases h with
        | idle ha | shrink ha => cases ha
        | endAll =>
          -- the section ends each of its subscribers
          obtain ⟨s', hs'⟩ := hk.att v p x hx
          refine Multiset.mem_add.mpr (.inl ?_)
          simp only [Links.detachAll, Multiset.mem_coe, List.mem_flatMap]
          exact ⟨x, hmem, by simp [hs', hp]⟩
      | begin => cases ho

lemma mem_detachAll {p : PeerId} {pcs : List PcId} {a : Act} (ha : a ∈ k.detachAll p pcs) :
    ∃ v, a = .detach v p := by
  simp only [Links.detachAll, List.mem_flatMap, List.mem_map] at ha
  obtain ⟨_, _, y, _, rfl⟩ := ha
  exact ⟨y.peerId, rfl⟩

lemma LinkStep.brings (h : LinkStep k w o k' w') {a : Act} (ha : a ∈ w') {v : PeerId}
    {s : SessionId} {x : PcId} (hb : a.brings v s x) :
    (∃ b ∈ w, b.brings v s x) ∨
      x = k.next ∧ k'.subs x = some ⟨v, s⟩ ∧ k'.att = k.att := by
  cases h with
  | @run b _ _ W h hw =>
    rcases Multiset.mem_add.mp ha with ha | ha
    · rw [Multiset.mem_coe] at ha
      cases h with
      | remove =>
        obtain ⟨s', -, rfl⟩ := List.mem_map.mp ha
        cases hb
      | close => rw [List.mem_singleton.mp ha] at hb; cases hb
      | endAll | claim => obtain ⟨v', rfl⟩ := mem_detachAll ha; cases hb
      | subscribe => rw [List.mem_singleton.mp ha] at hb; cases hb
      | build =>
        rw [List.mem_singleton.mp ha] at hb
        obtain ⟨rfl, rfl, rfl⟩ := hb
        exact .inr ⟨rfl, by simp, rfl⟩
      | @insert v' p s' pc =>
        rw [List.mem_singleton.mp ha] at hb
        exact .inl ⟨.insertSubscriber v' p s' pc, by simp [hw, Act.isLink], hb⟩
      | _ => cases ha
    · exact .inl ⟨a, hw ▸ Multiset.mem_add.mpr (.inr ha), hb⟩
  | begin => exact .inl ⟨a, ha, hb⟩

lemma Act.viewer_of_brings {a : Act} {v : PeerId} {s : SessionId} {x : PcId}
    (h : a.brings v s x) : a.viewer = some v := by
  cases a <;> simp only [Act.brings] at h
  all_goals rw [← h.1]; rfl

lemma LinkStep.brought (h : LinkStep k w o k' w') (hk : Built k w) {a : Act} (ha : a ∈ w')
    {v : PeerId} {s : SessionId} {x : PcId} (hb : a.brings v s x) :
    k'.subs x = some ⟨v, s⟩ := by
  rcases h.brings ha hb with ⟨b, hmem, hbr⟩ | ⟨rfl, hs, -⟩
  · exact h.subs hk (hk.brought b hmem v s x hbr)
  · exact hs

lemma LinkStep.unattached (h : LinkStep k w o k' w') (hk : Linked k w) {a : Act} (ha : a ∈ w')
    {v : PeerId} {s : SessionId} {x : PcId} (hb : a.brings v s x) (p : PeerId) :
    k'.att v p ≠ some x := by
  intro hp
  rcases h.brings ha hb with ⟨b, hmem, hbr⟩ | ⟨rfl, hs, hatt⟩
  · rcases h.att hp with hp | ⟨s', first, hat⟩
    · exact hk.unattached b hmem v s x hbr p hp
    · exact hat.sole a ha (Act.viewer_of_brings hb)
  · rw [hatt] at hp
    obtain ⟨s', hs'⟩ := hk.att v p _ hp
    exact absurd (hk.subsLt _ _ hs') (lt_irrefl _)

/-- What attaching an entry has to find: its other half, and no closing PC about to drop it;
or a pending step that takes the entry away again. -/
def Fits (k : Links) (w : Multiset Act) (v p : PeerId) (s : SessionId) (x : PcId) : Prop :=
  (k.sub s v = some x ∧ k.publisher s = p ∧ ∀ q, .dropSubscriber v q s (some x) ∉ w) ∨
    Doomed k w v p x

lemma Attaches.subs {v p : PeerId} {s : SessionId} {x : PcId} {first : Bool}
    (h : Attaches k w o k' w' v p s x first) (hk : Built k w) : k.subs x = some ⟨v, s⟩ := by
  have hmem : .attachSub v p s x first ∈ w := h.before ▸ Multiset.mem_cons_self ..
  exact hk.brought _ hmem v s x ⟨rfl, rfl, rfl⟩

lemma Inserts.subs {v p : PeerId} {s : SessionId} {x : PcId} {first : Bool} {W : Multiset Act}
    (h : Inserts k w o k' w' v p s x first W) (hk : Built k w) : k.subs x = some ⟨v, s⟩ := by
  have hmem : .insertSubscriber v p s x ∈ w := h.before ▸ Multiset.mem_cons_self ..
  exact hk.brought _ hmem v s x ⟨rfl, rfl, rfl⟩

lemma Inserts.unattached {v p : PeerId} {s : SessionId} {x : PcId} {first : Bool}
    {W : Multiset Act} (h : Inserts k w o k' w' v p s x first W) (hk : Linked k w) (q : PeerId) :
    k.att v q ≠ some x := by
  have hmem : .insertSubscriber v p s x ∈ w := h.before ▸ Multiset.mem_cons_self ..
  exact hk.unattached _ hmem v s x ⟨rfl, rfl, rfl⟩ q

theorem Built.step (hk : Built k w) (h : LinkStep k w o k' w') : Built k' w' where
  subsLt x y hx := by
    cases h with
    | run h hw =>
      cases h with
      | build | fail =>
        simp only [Function.update_apply] at hx
        split_ifs at hx with heq
        · rw [heq]; exact Nat.lt_succ_self _
        · exact (hk.subsLt x y hx).trans (Nat.lt_succ_self _)
      | idle _ hn => exact (hk.subsLt x y hx).trans_le hn
      | alloc => exact (hk.subsLt x y hx).trans (Nat.lt_succ_self _)
      | _ => exact hk.subsLt x y hx
    | begin => exact hk.subsLt x y hx
  sub s v x hx := by
    rcases h.sub hx with hold | ⟨p, first, W, hin⟩
    · exact h.subs hk (hk.sub s v x hold)
    · exact h.subs hk (hin.subs hk)
  brought a ha v s x := h.brought hk ha

lemma LinkStep.sub_closed (h : LinkStep k w o k' w') (hk : Linked k w) {s : SessionId}
    {v : PeerId} (hc : k'.closed s = true) : k'.sub s v = none := by
  refine Option.eq_none_iff_forall_ne_some.mpr fun x hx => ?_
  rcases h.sub hx with hold | ⟨p, first, W, hin⟩
  · have hopen : k.closed s = false := by
      by_contra hcl
      rw [hk.closed s v (by simpa using hcl)] at hold
      cases hold
    cases h with
    | run h hw =>
      cases h with
      | alloc =>
        simp only [Function.update_apply] at hc
        split_ifs at hc
        rw [hopen] at hc
        cases hc
      | close =>
        -- a section that closes a session takes all its subscribers
        simp only [Function.update_apply] at hc hx
        split_ifs at hc hx
        rw [hopen] at hc
        cases hc
      | _ => rw [hopen] at hc; cases hc
    | begin => rw [hopen] at hc; cases hc
  · -- it is inserted only in an open session
    rw [hin.after] at hc
    exact absurd (hin.opened.symm.trans hc) (by simp)

lemma LinkStep.opened (h : LinkStep k w o k' w') (hk : Linked k w) {s : SessionId}
    (hc : k'.closed s = false) : s < k'.next := by
  have old (ho : k.closed s = false) : s < k'.next := (hk.opened s ho).trans_le h.next_le
  cases h with
  | run h hw =>
    cases h with
    | alloc =>
      simp only [Function.update_apply] at hc
      split_ifs at hc with hs
      · rw [hs]; exact Nat.lt_succ_self _
      · exact old hc
    | close =>
      simp only [Function.update_apply] at hc
      split_ifs at hc
      exact old hc
    | _ => exact old hc
  | begin => exact old hc

lemma LinkStep.ending (h : LinkStep k w o k' w') (hk : Linked k w) {s : SessionId}
    {subs : List PcId} (he : .endSubscribers s subs ∈ w') : s < k'.next ∧ k'.closed s = true := by
  have old (ho : .endSubscribers s subs ∈ w) : s < k'.next ∧ k'.closed s = true := by
    obtain ⟨hlt, hc⟩ := hk.ending s subs ho
    exact ⟨hlt.trans_le h.next_le, h.closed_mono hlt hc⟩
  cases h with
  | @run b _ _ W h hw =>
    rcases Multiset.mem_add.mp he with he | he
    · rw [Multiset.mem_coe] at he
      cases h with
      | remove => obtain ⟨s', -, heq⟩ := List.mem_map.mp he; cases heq
      | @close s' r subs' hc =>
        cases List.mem_singleton.mp he
        exact ⟨hk.opened s hc, by simp⟩
      | endAll | claim => obtain ⟨v', heq⟩ := mem_detachAll he; cases heq
      | subscribe | build | insert => cases List.mem_singleton.mp he
      | _ => cases he
    · exact old (hw ▸ Multiset.mem_add.mpr (.inr he))
  | begin => exact old he

lemma LinkStep.publisher (h : LinkStep k w o k' w') {s : SessionId} {v : PeerId} {x : PcId}
    (hx : k'.sub s v = some x) : k'.publisher s = k.publisher s := by
  cases h with
  | run h hw =>
    cases h with
    | alloc | claim =>
      simp only [Function.update_apply] at hx ⊢
      split_ifs at hx ⊢
      rfl
    | _ => rfl
  | begin => rfl

lemma LinkStep.same (h : LinkStep k w o k' w') (hk : Linked k w)
    (hg : ∀ v p s x first, o = some (.attachSub v p s x first) → k.conn v = true →
      Fits k w v p s x) {v p : PeerId} {s : SessionId} {x : PcId}
    (hx : k'.att v p = some x) (hs : k'.sub s v = some x) :
    k'.publisher s = p ∨ Doomed k' w' v p x := by
  rcases h.att hx with hold | ⟨s', first, hat⟩
  · rcases h.sub hs with hs' | ⟨q, first, W, hin⟩
    · rw [h.publisher hs]
      exact (hk.same v p x s hold hs').imp id fun hd => h.doomed hk hd hx
    · exact absurd hold (hin.unattached hk p)
  · rcases hg v p s' x first hat.act hat.conn with ⟨-, hp, -⟩ | hd
    · left
      have hsub : k.sub s v = some x := by rw [hat.after] at hs; exact hs
      have heq := (hat.subs hk.toBuilt).symm.trans (hk.sub s v x hsub)
      cases heq
      rw [h.publisher hs, hp]
    · exact .inr (h.doomed hk hd hx)

lemma LinkStep.replaces (h : LinkStep k w o k' w') (hk : Linked k w) {a : Act} (ha : a ∈ w')
    {v p : PeerId} {s : SessionId} {x : PcId} (hr : a.replaces v s x) (hx : k'.att v p = some x)
    (hold : k.att v p = some x) (hs : k.sub s v = some x) : Doomed k w v p x := by
  have apart {b : Act} (hb : b ∈ w) (hbr : b.replaces v s x) : Doomed k w v p x :=
    hk.apart b hb v s x hbr p hold hs
  cases h with
  | @run b _ _ W h hw =>
    rcases Multiset.mem_add.mp ha with ha | ha
    · rw [Multiset.mem_coe] at ha
      cases h with
      | @remove v' p' only owned hpub =>
        obtain ⟨s', hs', rfl⟩ := List.mem_map.mp ha
        obtain ⟨rfl, rfl, ho⟩ := hr
        rcases hk.same v' p x s' hold hs with hp | hd
        · -- the entry under the session's publisher has just been removed
          have hpp : p = p' := hp.symm.trans (hpub s' (by simpa using hs'))
          subst hpp
          have hcond : only = none ∨ k.att v' p = only := by
            rcases ho with ho | ho
            · exact .inl ho
            · exact .inr (hold.trans ho.symm)
          simp [hcond] at hx
        · exact hd
      | close => rw [List.mem_singleton.mp ha] at hr; cases hr
      | endAll | claim => obtain ⟨v', rfl⟩ := mem_detachAll ha; cases hr
      | @subscribe v' p' s' _ hpub hnone =>
        rw [List.mem_singleton.mp ha] at hr
        -- the entry under the publisher was there already, so it is another one's
        obtain ⟨rfl, rfl⟩ := hr
        rcases hk.same v' p x s' hold hs with hp | hd
        · rw [← hp, hpub, hnone] at hold
          cases hold
        · exact hd
      | @build v' s' =>
        rw [List.mem_singleton.mp ha] at hr
        obtain ⟨rfl, rfl⟩ := hr
        -- the subscribe that builds the PC has seen to the entry
        exact apart (b := .subscribePublisher v' s' true) (by simp [hw, Act.isLink]) ⟨rfl, rfl⟩
      | insert => rw [List.mem_singleton.mp ha] at hr; cases hr
      | _ => cases ha
    · exact apart (hw ▸ Multiset.mem_add.mpr (.inr ha)) hr
  | begin => exact apart ha hr

lemma Act.replaces_cases {a : Act} {v : PeerId} {s : SessionId} {x : PcId}
    (h : a.replaces v s x) : a.viewer = some v ∨ ∃ p, a = .dropSubscriber v p s (some x) := by
  cases a <;> simp only [Act.replaces] at h
  case subscribePublisher | insertSubscriber => rw [← h.1]; exact .inl rfl
  case dropSubscriber v' p' s' only =>
    obtain ⟨rfl, rfl, rfl | rfl⟩ := h
    · exact .inl rfl
    · exact .inr ⟨p', rfl⟩

lemma LinkStep.apart (h : LinkStep k w o k' w') (hk : Linked k w)
    (hg : ∀ v p s x first, o = some (.attachSub v p s x first) → k.conn v = true →
      Fits k w v p s x) {a : Act} (ha : a ∈ w') {v p : PeerId} {s : SessionId} {x : PcId}
    (hr : a.replaces v s x) (hx : k'.att v p = some x) (hs : k'.sub s v = some x) :
    Doomed k' w' v p x := by
  refine h.doomed hk ?_ hx
  rcases h.att hx with hold | ⟨s', first, hat⟩
  · rcases h.sub hs with hs' | ⟨q, first, W, hin⟩
    · exact h.replaces hk ha hr hx hold hs'
    · exact absurd hold (hin.unattached hk p)
  · rcases hg v p s' x first hat.act hat.conn with ⟨-, -, hno⟩ | hd
    · exfalso
      rcases Act.replaces_cases hr with hv | ⟨q, rfl⟩
      · exact hat.sole a ha hv
      · have hsub : k.sub s v = some x := by rw [hat.after] at hs; exact hs
        cases (hat.subs hk.toBuilt).symm.trans (hk.sub s v x hsub)
        exact hno q (hat.before ▸ Multiset.mem_cons_of_mem ha)
    · exact hd

/-- What takes an entry's other half away dooms the entry, unless the entry was so already. -/
lemma LinkStep.loses (h : LinkStep k w o k' w') (hk : Linked k w) {v p : PeerId} {s : SessionId}
    {x : PcId} (hold : k.att v p = some x) (hs : k.sub s v = some x) (hp : k.publisher s = p)
    (hs' : k'.sub s v ≠ some x) : Doomed k w v p x ∨ Doomed k' w' v p x := by
  cases h with
  | @run b _ _ W h hw =>
    cases h with
    | alloc =>
      -- a new session has no subscribers
      have hne : s ≠ k.next := by
        rintro rfl
        have hopen : k.closed k.next = false := by
          by_contra hc
          rw [hk.closed _ v (by simpa using hc)] at hs
          cases hs
        exact absurd (hk.opened _ hopen) (lt_irrefl _)
      simp [hne, hs] at hs'
    | @drop v' p' s' only =>
      left
      simp only at hs'
      split_ifs at hs' with hcond
      · obtain ⟨rfl, rfl, ho⟩ := hcond
        -- the other half is seen to by the call that drops this one
        refine hk.apart (.dropSubscriber v p' s only) (by simp [hw, Act.isLink]) v s x
          ⟨rfl, rfl, ?_⟩ p hold hs
        rw [hs] at ho
        exact ho.imp id Eq.symm
      · exact absurd hs hs'
    | @close s' r subs hc hsubs =>
      right
      simp only [Function.update_apply] at hs'
      split_ifs at hs' with heq
      · -- the halves that go are ended one by one
        subst heq
        exact .inr ⟨s, subs, by simp, hsubs v x hs, hp⟩
      · exact absurd hs hs'
    | @claim id t s' stale hc hstale =>
      right
      simp only [Function.update_apply] at hs'
      split_ifs at hs' with heq
      · -- the claim tears down every stale half
        subst heq
        refine .inl (Multiset.mem_add.mpr (.inl ?_))
        simp only [Links.detachAll, Multiset.mem_coe, List.mem_flatMap]
        exact ⟨x, hstale v x hs, by simp [hk.sub s v x hs, hp]⟩
      · exact absurd hs hs'
    | @insert v' p' s' pc first hc =>
      left
      simp only at hs'
      split_ifs at hs' with hcond
      · obtain ⟨rfl, rfl⟩ := hcond
        -- a section that is to insert has seen to the entry
        exact hk.apart (.insertSubscriber v p' s pc) (by simp [hw, Act.isLink]) v s x ⟨rfl, rfl⟩
          p hold hs
      · exact absurd hs hs'
    | _ => exact absurd hs hs'
  | begin => exact absurd hs hs'

lemma LinkStep.linked (h : LinkStep k w o k' w') (hk : Linked k w)
    (hg : ∀ v p s x first, o = some (.attachSub v p s x first) → k.conn v = true →
      Fits k w v p s x) {v p : PeerId} {x : PcId} (hx : k'.att v p = some x) :
    (∃ s, k'.sub s v = some x ∧ k'.publisher s = p) ∨ Doomed k' w' v p x := by
  rcases h.att hx with hold | ⟨s, first, hat⟩
  · rcases hk.linked v p x hold with ⟨s, hs, hp⟩ | hd
    · by_cases hs' : k'.sub s v = some x
      · exact .inl ⟨s, hs', (h.publisher hs').trans hp⟩
      · rcases h.loses hk hold hs hp hs' with hd | hd
        · exact .inr (h.doomed hk hd hx)
        · exact .inr hd
    · exact .inr (h.doomed hk hd hx)
  · rcases hg v p s x first hat.act hat.conn with ⟨hs, hp, -⟩ | hd
    · left
      refine ⟨s, ?_, ?_⟩ <;> rw [hat.after]
      · exact hs
      · exact hp
    · exact .inr (h.doomed hk hd hx)

theorem Linked.step (hk : Linked k w) (h : LinkStep k w o k' w')
    (hg : ∀ v p s x first, o = some (.attachSub v p s x first) → k.conn v = true →
      Fits k w v p s x) : Linked k' w' where
  toBuilt := hk.toBuilt.step h
  opened s := h.opened hk
  closed s v := h.sub_closed hk
  ending s subs := h.ending hk
  att v p x hx := by
    rcases h.att hx with hold | ⟨s, first, hat⟩
    · obtain ⟨s, hs⟩ := hk.att v p x hold
      exact ⟨s, h.subs hk.toBuilt hs⟩
    · exact ⟨s, h.subs hk.toBuilt (hat.subs hk.toBuilt)⟩
  unattached a ha v s x := h.unattached hk ha
  same v p x s := h.same hk hg
  apart a ha v s x hr p := h.apart hk hg ha hr
  linked v p x := h.linked hk hg

end Step

/-! ### Runs -/

/-- The second section of `remove_screen_sub` for a closing PC, about to drop `x`. -/
def Act.drops (v : PeerId) (s : SessionId) (x : PcId) : Act → Bool
  | .dropSubscriber v' _ s' only => v' = v ∧ s' = s ∧ only = some x
  | _ => false

/-- A step that will take the entry `x` of `v` under `p` away. -/
def Act.dooms (st : State) (v p : PeerId) (x : PcId) : Act → Bool
  | .detach v' p' => v' = v ∧ p' = p
  | .endSubscribers s subs => x ∈ subs ∧ (st.sessions s).publisherId = p
  | _ => false

/-- A subscription is attached only to what is still its session's half, unless the entry is
about to be taken away again. -/
def settled (c : Config) : Act → Bool
  | .attachSub v p s x _ => (c.st.peers.get v).isNone ||
    (c.st.subscriber s v = some x && (c.st.sessions s).publisherId = p &&
      !c.work.any (·.drops v s x)) || c.work.any (·.dooms c.st v p x)
  | _ => true

lemma fits_of_settled {c : Config} {l : Label} (hg : guard settled c l) {v p : PeerId}
    {s : SessionId} {x : PcId} {first : Bool} (ha : l.act c = some (.attachSub v p s x first))
    (hv : c.st.links.conn v = true) : Fits c.st.links (pendingLinks c) v p s x := by
  have hor := hg _ ha
  have hsome : (c.st.peers.get v).isNone = false := by simpa [State.links] using hv
  simp only [settled, hsome, Bool.false_or, Bool.or_eq_true, Bool.and_eq_true, decide_eq_true_eq,
    Bool.not_eq_true', List.any_eq_false, List.any_eq_true] at hor
  rcases hor with ⟨⟨hs, hp⟩, hno⟩ | ⟨a, hmem, ha⟩
  · refine .inl ⟨hs, hp, fun q hq => ?_⟩
    simpa [Act.drops] using hno _ (mem_pendingOf.mp hq).1
  · right
    cases a <;> simp only [Act.dooms, decide_eq_true_eq, Bool.false_eq_true] at ha
    case detach v' p' =>
      obtain ⟨rfl, rfl⟩ := ha
      exact .inl (mem_pendingOf.mpr ⟨hmem, rfl⟩)
    case endSubscribers s' subs =>
      exact .inr ⟨s', subs, mem_pendingOf.mpr ⟨hmem, rfl⟩, ha.1, ha.2⟩

lemma built_init : Built init.st.links (pendingLinks init) where
  subsLt x y hx := by cases hx
  sub s v x hx := by cases hx
  brought a ha := by simp at ha

theorem Reach.built {G : Config → Label → Prop} {c : Config} (h : Reach G c) :
    Built c.st.links (pendingLinks c) :=
  Machine.Reach.invariant' (I := fun c => Built c.st.links (pendingLinks c)) built_init
    (fun _ _ _ hr hk _ hl => hk.step (step_link (Reach.exclusive hr) (Reach.oneAtATime hr) hl)) h

lemma linked_init : Linked init.st.links (pendingLinks init) where
  toBuilt := built_init
  opened s hc := by cases hc
  closed s v _ := rfl
  ending s subs he := by simp at he
  att v p x hx := by cases hx
  unattached a ha := by simp at ha
  same v p x s hx := by cases hx
  apart a ha := by simp at ha
  linked v p x hx := by cases hx

theorem Reach.linked {c : Config} (h : Reach (guard settled) c) :
    Linked c.st.links (pendingLinks c) :=
  Machine.Reach.invariant' (I := fun c => Linked c.st.links (pendingLinks c)) linked_init
    (fun _ _ _ hr hk hg hl => hk.step (step_link (Reach.exclusive hr) (Reach.oneAtATime hr) hl)
      fun _ _ _ _ _ ha hv => fits_of_settled hg ha hv) h

/-- Every subscription a connected viewer has is one of an open session under the publisher it
is known by. -/
def SubscribersAgree (st : State) : Prop :=
  ∀ v p x, st.subOf v p = some x →
    ∃ s, (st.sessions s).closed = false ∧ (st.sessions s).publisherId = p ∧
      st.subscriber s v = some x

/-- **Subscriber maps agree**, if subscriptions are attached to what is still there. -/
theorem subscribers_agree {c : Config} (h : Reach (guard settled) c) (hq : c.Quiet) :
    SubscribersAgree c.st := by
  intro v p x hx
  have hnone : ∀ a, a ∉ pendingLinks c := fun a ha => by
    rw [mem_pendingOf, show c.work = [] from hq] at ha
    simp at ha
  rcases h.linked.linked v p x hx with ⟨s, hs, hp⟩ | hd | ⟨s, subs, hd, -⟩
  · refine ⟨s, ?_, hp, hs⟩
    by_contra hc
    rw [h.linked.closed s v (by simpa [State.links] using hc)] at hs
    cases hs
  · exact absurd hd (hnone _)
  · exact absurd hd (hnone _)

/-- A second peer joins and subscribes to the share of the first; its subscription is in the
session and about to be attached. -/
def subscribing : List Label :=
  [.event (.join ⟨"p1", "c", false⟩ "A"), .run 0 .plain, .run 0 .plain, .run 0 .plain,
    .event (.screenShareStart "p1" ⟨true, none, some .vp9⟩),
    .run 1 .plain, .run 1 .plain, .run 1 .plain, .run 1 .plain,
    .event (.join ⟨"p2", "d", false⟩ "B"), .run 2 .plain, .run 2 .plain, .run 2 .plain,
    .run 2 .plain, .event (.screenShareSubscribe "p2" "p1" true), .run 3 .plain, .run 3 .plain,
    .run 3 .plain]

/-- It is attached. -/
def subscribed : List Label :=
  subscribing ++ [.run 3 .plain, .run 3 .plain, .run 3 .plain, .run 3 .plain]

theorem subscribers_agree_subscribed : SubscribersAgree (after subscribed).st :=
  subscribers_agree (reach_after (by decide +kernel) (by decide +kernel)) (by decide +kernel)

/-- The share is stopped before. -/
def subscribedLate : List Label :=
  subscribing ++ [.event (.screenShareStop "p1")] ++ List.replicate 14 (.run 4 .plain) ++
    [.run 5 .plain] ++ List.replicate 4 (.run 3 .plain)

/-- An entry that is attached after its session has ended stays behind. -/
theorem subscribers_disagree : ¬ ∀ c, Reach Machine.free c → c.Quiet → SubscribersAgree c.st := by
  intro h
  have hr : Reach Machine.free (after subscribedLate) :=
    reach_after (by decide +kernel) (by decide +kernel)
  obtain ⟨s, hc, -, hs⟩ := h _ hr (by decide +kernel) "p2" "p1" 2 (by decide +kernel)
  have hlt : s < (after subscribedLate).st.next := (hr.exclusive.opened s hc).1
  have hno : ∀ s < (after subscribedLate).st.next,
      (after subscribedLate).st.subscriber s "p2" ≠ some 2 := by decide +kernel
  exact hno s hlt hs

end VoiceHub.Sfu.Room
