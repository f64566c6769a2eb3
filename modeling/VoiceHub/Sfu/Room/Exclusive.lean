import Mathlib
import VoiceHub.Sfu.Room.Ownership

/-!
A screen session has one owner.

A session becomes known to the room when it is registered, and only then: until that step
nothing but its own thread can name it. The steps that end a session set its flag first and
read its publisher after, so that the publisher they clear is the last one it had.
-/

namespace VoiceHub.Sfu.Room

open VoiceHub.Lib

/-- Nothing but the thread that starts session `s` can name it. -/
structure Unknown (k : Core) (w : Multiset Act) (s : SessionId) : Prop where
  owner : ∀ p, k.owner p ≠ some (some s)
  byToken : ∀ t, k.byToken t ≠ some s
  timers : ∀ t, (t, s) ∉ k.timers
  ends : ∀ r, .endScreenShareSession s r ∉ w
  arms : ∀ p, .startScreenShareGrace s p ∉ w

def Act.registers (a : Act) (s : SessionId) : Bool :=
  match a with
  | .registerSession _ s' => s' = s
  | _ => false

lemma Act.registers_iff {a : Act} {s : SessionId} :
    a.registers s = true ↔ ∃ id, a = .registerSession id s := by
  cases a <;> simp [Act.registers]

/-- A session on its way to being registered. -/
structure Starting (k : Core) (w : Multiset Act) (id : PeerId) (s : SessionId) : Prop where
  unknown : Unknown k w s
  lt : s < k.next
  publisher : k.publisher s = id
  token : k.token s = s
  closed : k.closed s = false
  grace : k.grace s = none
  once : w.countP (·.registers s) = 1

/-- Nobody owns session `s`, and no token finds it. -/
def Unreferenced (k : Core) (s : SessionId) : Prop :=
  (∀ p, k.owner p ≠ some (some s)) ∧ ∀ t, k.byToken t ≠ some s

structure Exclusive (k : Core) (w : Multiset Act) : Prop where
  seen : ∀ id, k.seen id = none → k.owner id = none
  fresh : ∀ s, k.next ≤ s → Unknown k w s
  starting : ∀ id s, .registerSession id s ∈ w → Starting k w id s
  token : ∀ t s, k.byToken t = some s → t = s ∧ k.token s = s
  publisher : ∀ p s, k.owner p = some (some s) → k.publisher s = p
  subscribers : ∀ s subs, .endSubscribers s subs ∈ w → s < k.next ∧ k.closed s = true
  roster : ∀ s p, .endRoster s p ∈ w → s < k.next ∧ k.closed s = true ∧ k.publisher s = p
  opened : ∀ s, k.closed s = false → s < k.next ∧ k.token s = s
  closed : ∀ s, k.closed s = true →
    (∃ subs, .endSubscribers s subs ∈ w) ∨ (∃ p, .endRoster s p ∈ w) ∨ Unreferenced k s

section Step

variable {k k' : Core} {w w' : Multiset Act} {o : Option Act} {s : SessionId} {id : PeerId}

lemma CoreStep.next_le (h : CoreStep k w o k' w') : k.next ≤ k'.next := by
  cases h with
  | run h hw => cases h <;> simp_all
  | _ => simp

lemma CoreStep.unknown (h : CoreStep k w o k' w') (hs : Unknown k w s)
    (ho : ∀ id, o ≠ some (.registerSession id s)) : Unknown k' w' s := by
  obtain ⟨h1, h2, h3, h4, h5⟩ := hs
  cases h with
  | run h hw =>
    subst hw
    cases h <;> constructor <;> simp_all [Act.isCore, Function.update_apply] <;> grind
  | _ => constructor <;> simp_all <;> grind [List.mem_of_mem_erase]

lemma CoreStep.countP (h : CoreStep k w o k' w') (hs : s ≠ k.next)
    (ho : ∀ id, o ≠ some (.registerSession id s)) :
    w'.countP (·.registers s) = w.countP (·.registers s) := by
  cases h with
  | run h hw =>
    subst hw
    cases h with
    | idle ha => simp [ha]
    | refuse | register =>
      have hne : ∀ id, Act.registerSession id s ≠ _ := fun id h => ho id (congrArg some h.symm)
      simp_all [Act.isCore, Act.registers_iff]
    | _ =>
      simp [Act.isCore, Multiset.countP_add, Act.registers_iff, hs.symm, List.countP_eq_zero]
  | _ => simp [Act.registers_iff]

lemma CoreStep.starting_stays (h : CoreStep k w o k' w') (hst : Starting k w id s)
    (ho : ∀ id, o ≠ some (.registerSession id s)) : Starting k' w' id s where
  unknown := h.unknown hst.unknown ho
  lt := hst.lt.trans_le h.next_le
  publisher := by
    cases h with
    | run h hw =>
      cases h with
      | alloc => simpa [hst.lt.ne] using hst.publisher
      | @claim _ t s' _ ht =>
        have hne : s ≠ s' := by rintro rfl; exact hst.unknown.byToken t ht
        simpa [hne] using hst.publisher
      | _ => exact hst.publisher
    | _ => exact hst.publisher
  token := by
    cases h with
    | run h hw =>
      cases h with
      | alloc => simpa [hst.lt.ne] using hst.token
      | _ => exact hst.token
    | _ => exact hst.token
  closed := by
    cases h with
    | run h hw =>
      cases h with
      | alloc => simpa [hst.lt.ne] using hst.closed
      | @close s' r =>
        have hne : s ≠ s' := by rintro rfl; exact hst.unknown.ends r (by simp [hw, Act.isCore])
        simpa [hne] using hst.closed
      | _ => exact hst.closed
    | _ => exact hst.closed
  grace := by
    cases h with
    | run h hw =>
      cases h with
      | alloc => simpa [hst.lt.ne] using hst.grace
      | @arm s' p =>
        have hne : s ≠ s' := by rintro rfl; exact hst.unknown.arms p (by simp [hw, Act.isCore])
        simpa [hne] using hst.grace
      | close | claim => simpa [Function.update_apply] using fun _ => hst.grace
      | _ => exact hst.grace
    | _ => exact hst.grace
  once := by rw [h.countP hst.lt.ne ho, hst.once]

lemma Exclusive.alloc (hk : Exclusive k w) {id : PeerId} :
    Starting
      { k with
        publisher := Function.update k.publisher k.next id
        token := Function.update k.token k.next k.next
        grace := Function.update k.grace k.next none
        closed := Function.update k.closed k.next false
        next := k.next + 1 } (.registerSession id k.next ::ₘ w) id k.next where
  unknown := by
    obtain ⟨h1, h2, h3, h4, h5⟩ := hk.fresh _ le_rfl
    exact ⟨h1, h2, h3, by simpa using h4, by simpa using h5⟩
  lt := Nat.lt_succ_self _
  publisher := by simp
  token := by simp
  closed := by simp
  grace := by simp
  once := by
    have h0 : w.countP (·.registers k.next) = 0 := by
      simp only [Multiset.countP_eq_zero, Act.registers_iff]
      rintro _ ha ⟨id', rfl⟩
      exact absurd (hk.starting id' _ ha).lt (lt_irrefl _)
    rw [Multiset.countP_cons_of_pos _ (by simp [Act.registers]), h0]

lemma Starting.not_again {W : Multiset Act} {id' : PeerId}
    (h : Starting k (.registerSession id s ::ₘ W) id s) : .registerSession id' s ∉ W := by
  intro hmem
  have hone := h.once
  rw [Multiset.countP_cons_of_pos _ (by simp [Act.registers]), Nat.succ_inj,
    Multiset.countP_eq_zero] at hone
  exact hone _ hmem (by simp [Act.registers])

lemma CoreStep.starting (h : CoreStep k w o k' w') (hk : Exclusive k w)
    (hs : .registerSession id s ∈ w') : Starting k' w' id s := by
  have stays (hmem : .registerSession id s ∈ w) (ho : ∀ id', o ≠ some (.registerSession id' s)) :=
    h.starting_stays (hk.starting id s hmem) ho
  cases h with
  | @run _ _ _ W h hw =>
    subst hw
    cases h with
    | idle ha =>
      exact stays (by simpa [ha] using hs) (by rintro id' ⟨⟩; cases ha)
    | alloc =>
      obtain hs | hs := Multiset.mem_cons.mp hs
      · cases hs
        have hw : ∀ data, ↑(coreActs [Act.screenShareStart id data]) + W = W := fun _ => zero_add W
        rw [hw] at hk
        exact hk.alloc
      · exact stays (by simpa [Act.isCore] using hs) (by simp)
    | @refuse id' s' | @register id' s' =>
      refine stays (Multiset.mem_cons_of_mem (by simpa using hs)) ?_
      rintro id'' ⟨⟩
      exact (hk.starting id' s (Multiset.mem_cons_self ..)).not_again (by simpa using hs)
    | _ => exact stays (by simpa [Act.isCore] using hs) (by simp)
  | _ => exact stays (by simpa using hs) (by simp)

lemma CoreStep.token (h : CoreStep k w o k' w') (hk : Exclusive k w) :
    ∀ t s, k'.byToken t = some s → t = s ∧ k'.token s = s := by
  intro t s ht
  cases h with
  | run h hw =>
    subst hw
    cases h with
    | alloc =>
      have hne : s ≠ k.next := fun hs => (hk.fresh _ hs.ge).byToken t ht
      simpa [hne] using hk.token t s ht
    | @register id s' ho =>
      have hst := hk.starting id s' (by simp [Act.isCore])
      simp only [hst.token, Function.update_apply] at ht
      split at ht
      · next h => cases ht; exact ⟨h, hst.token⟩
      · exact hk.token t s ht
    | clear =>
      simp only [Function.update_apply] at ht
      split at ht
      · cases ht
      · exact hk.token t s ht
    | _ => exact hk.token t s ht
  | _ => exact hk.token t s ht

lemma CoreStep.opened (h : CoreStep k w o k' w') (hk : Exclusive k w) :
    ∀ s, k'.closed s = false → s < k'.next ∧ k'.token s = s := by
  intro s hs
  have stays (hc : k.closed s = false) : s < k'.next ∧ k.token s = s :=
    (hk.opened s hc).imp_left (·.trans_le h.next_le)
  cases h with
  | run h hw =>
    cases h with
    | alloc =>
      by_cases hn : s = k.next
      · simp [hn]
      · simpa [hn] using stays (by simpa [hn] using hs)
    | close =>
      simp only [Function.update_apply] at hs
      split_ifs at hs
      exact stays hs
    | _ => exact stays hs
  | _ => exact stays hs

lemma CoreStep.seen (h : CoreStep k w o k' w') (hk : Exclusive k w) :
    ∀ id, k'.seen id = none → k'.owner id = none := by
  intro id hs
  cases h with
  | run h hw =>
    cases h with
    | join =>
      simp only [Function.update_apply] at hs ⊢
      split_ifs at hs ⊢
      · rfl
      · exact hk.seen id hs
    | leave =>
      simp only [Function.update_apply]
      split_ifs
      · rfl
      · exact hk.seen id hs
    | register ho | claim _ _ ho =>
      simp only [Function.update_apply]
      split_ifs with h
      · -- only a peer that is there gets a session
        subst h; rw [hk.seen id hs] at ho; cases ho
      · exact hk.seen id hs
    | clear =>
      simp only
      split_ifs with h
      · obtain ⟨rfl, ho⟩ := h
        rw [hk.seen id hs] at ho
        cases ho
      · exact hk.seen id hs
    | _ => exact hk.seen id hs
  | _ => exact hk.seen id hs

lemma CoreStep.publisher (h : CoreStep k w o k' w') (hk : Exclusive k w) :
    ∀ p s, k'.owner p = some (some s) → k'.publisher s = p := by
  intro p s hp
  cases h with
  | run h hw =>
    subst hw
    cases h with
    | join =>
      -- a peer that joins owns nothing
      simp only at hp
      split_ifs at hp
      · cases hp
      · exact hk.publisher p s hp
    | leave =>
      simp only [Function.update_apply] at hp
      split_ifs at hp
      exact hk.publisher p s hp
    | alloc =>
      have hne : s ≠ k.next := fun hs => (hk.fresh _ hs.ge).owner p hp
      simpa [hne] using hk.publisher p s hp
    | @register id s' ho =>
      have hst := hk.starting id s' (by simp [Act.isCore])
      simp only [Function.update_apply] at hp
      -- its session has named it since it was allocated
      split_ifs at hp with h
      · cases hp; rw [h]; exact hst.publisher
      · exact hk.publisher p s hp
    | clear =>
      simp only at hp
      split_ifs at hp
      · cases hp
      · exact hk.publisher p s hp
    | @claim id t s' o ht hold ho hs hc =>
      simp only [Function.update_apply] at hp ⊢
      -- the claim names its new owner
      split_ifs at hp with h
      · cases hp; rw [if_pos rfl]; exact h.symm
      · -- another owner of the session would be its publisher, which has no entry
        have hpub := hk.publisher p s hp
        have hne : s ≠ s' := by
          rintro rfl
          rcases hold with hold | hold
          · rw [hpub, hp] at hold; cases hold
          · exact h (hpub.symm.trans hold)
        rw [if_neg hne]
        exact hpub
    | _ => exact hk.publisher p s hp
  | _ => exact hk.publisher p s hp

lemma CoreStep.act_mem {a : Act} (h : CoreStep k w o k' w') (ho : o = some a)
    (ha : a.isCore = true) : a ∈ w := by
  cases h with
  | run h hw => cases ho; rw [hw]; simp [ha]
  | _ => cases ho

lemma CoreStep.closed_mono (h : CoreStep k w o k' w') (hs : s < k.next)
    (hc : k.closed s = true) : k'.closed s = true := by
  cases h with
  | run h hw =>
    cases h with
    | alloc => simpa [hs.ne] using hc
    | close => simp [Function.update_apply, hc]
    | _ => exact hc
  | _ => exact hc

lemma CoreStep.publisher_closed (h : CoreStep k w o k' w') (hs : s < k.next)
    (hc : k.closed s = true) : k'.publisher s = k.publisher s := by
  cases h with
  | run h hw =>
    cases h with
    | alloc => simp [hs.ne]
    | claim _ _ _ _ ho =>
      simp only [Function.update_apply, ite_eq_right_iff]
      rintro rfl
      rw [ho] at hc
      cases hc
    | _ => rfl
  | _ => rfl

lemma CoreStep.endSubscribers (h : CoreStep k w o k' w') {subs : List PcId}
    (hs : .endSubscribers s subs ∈ w') : .endSubscribers s subs ∈ w ∨
      (∃ r, .endScreenShareSession s r ∈ w) ∧ k'.closed s = true := by
  cases h with
  | run h hw =>
    subst hw
    cases h with
    | @close s' r =>
      obtain hs | hs := Multiset.mem_add.mp hs
      · right
        simp only [Multiset.mem_coe, List.mem_append, List.mem_map, List.mem_singleton] at hs
        obtain ⟨_, _, h⟩ | h := hs
        · cases h
        · cases h
          exact ⟨⟨r, Multiset.mem_cons_self ..⟩, by simp⟩
      · exact .inl (Multiset.mem_cons_of_mem hs)
    | leave | claim => left; simpa [Act.isCore] using hs
    | _ => exact .inl (Multiset.mem_add.mpr (.inr (by simpa using hs)))
  | _ => left; simpa using hs

lemma CoreStep.endRoster (h : CoreStep k w o k' w') {p : PeerId}
    (hs : .endRoster s p ∈ w') : .endRoster s p ∈ w ∨
      (∃ subs, .endSubscribers s subs ∈ w) ∧ p = k.publisher s := by
  cases h with
  | run h hw =>
    subst hw
    cases h with
    | @subscribers s' subs =>
      obtain hs | hs := Multiset.mem_cons.mp hs
      · cases hs
        exact .inr ⟨⟨subs, Multiset.mem_cons_self ..⟩, rfl⟩
      · exact .inl (Multiset.mem_cons_of_mem hs)
    | close | leave | claim => left; simpa [Act.isCore] using hs
    | _ => exact .inl (Multiset.mem_add.mpr (.inr (by simpa using hs)))
  | _ => left; simpa using hs

lemma Exclusive.byToken_eq_none (hk : Exclusive k w) (hu : Unreferenced k s)
    (ht : k.token s = s) : k.byToken (k.token s) = none := by
  refine Option.eq_none_iff_forall_ne_some.mpr fun s' hs' => ?_
  obtain ⟨rfl, -⟩ := hk.token _ s' hs'
  rw [ht] at hs'
  exact hu.2 s hs'

lemma CoreStep.unreferenced (h : CoreStep k w o k' w') (hk : Exclusive k w)
    (hc : k.closed s = true) (hs : Unreferenced k s) : Unreferenced k' s := by
  obtain ⟨ho, ht⟩ := hs
  cases h with
  | run h hw =>
    subst hw
    cases h with
    | @register id s' =>
      have hne : s' ≠ s := by
        rintro rfl
        simp [(hk.starting id s' (Multiset.mem_cons_self ..)).closed] at hc
      refine ⟨fun p => ?_, fun t => ?_⟩ <;> simp only [Function.update_apply] <;> split_ifs <;>
        simp [ho, ht, hne]
    | @claim _ t s' _ hbt =>
      have hne : s' ≠ s := by rintro rfl; exact ht t hbt
      refine ⟨fun p => ?_, ht⟩
      simp only [Function.update_apply]
      split_ifs <;> simp [ho, hne]
    | join =>
      refine ⟨fun p => ?_, ht⟩
      simp only
      split_ifs <;> simp [ho]
    | leave =>
      refine ⟨fun p => ?_, ht⟩
      simp only [Function.update_apply]
      split_ifs <;> simp [ho]
    | clear =>
      refine ⟨fun p => ?_, fun t => ?_⟩ <;> simp only [Function.update_apply] <;> split_ifs <;>
        simp [ho, ht]
    | _ => exact ⟨ho, ht⟩
  | _ => exact ⟨ho, ht⟩

lemma CoreStep.keeps (h : CoreStep k w o k' w') {a : Act} (ha : a ∈ w) : a ∈ w' ∨ o = some a := by
  cases h with
  | @run b _ _ _ h hw =>
    subst hw
    obtain ha | ha := Multiset.mem_add.mp ha
    · right
      by_cases hb : b.isCore = true
      · simp only [watched_cons, hb, if_true, watched_nil, Multiset.coe_singleton,
          Multiset.mem_singleton] at ha
        rw [ha]
      · simp [hb] at ha
    · exact .inl (Multiset.mem_add.mpr (.inr ha))
  | _ => left; simp [ha]

/-- The last section of the call that closed `s` leaves nothing that refers to it. -/
lemma CoreStep.cleared (h : CoreStep k w o k' w') (hk : Exclusive k w) {p : PeerId}
    (hs : .endRoster s p ∈ w) (ho : o = some (.endRoster s p)) : Unreferenced k' s := by
  obtain ⟨-, -, hp⟩ := hk.roster s p hs
  cases h with
  | run h hw =>
    cases ho
    cases h with
    | idle ha => cases ha
    | clear =>
      refine ⟨fun q hq => ?_, fun t ht => ?_⟩
      · simp only at hq
        split_ifs at hq with h
        · cases hq
        · have hqp : q = p := (hk.publisher q s hq).symm.trans hp
          exact h ⟨hqp, hqp ▸ hq⟩
      · simp only [Function.update_apply] at ht
        split_ifs at ht with h
        obtain ⟨hts, htok⟩ := hk.token t s ht
        exact h (hts.trans htok.symm)
  | _ => cases ho

lemma CoreStep.advances (h : CoreStep k w o k' w') {subs : List PcId}
    (ho : o = some (.endSubscribers s subs)) : ∃ p, .endRoster s p ∈ w' := by
  cases h with
  | run h hw =>
    cases ho
    cases h with
    | idle ha => cases ha
    | subscribers => exact ⟨_, Multiset.mem_cons_self ..⟩
  | _ => cases ho

lemma CoreStep.closes (h : CoreStep k w o k' w') (hc : k.closed s = false)
    (hc' : k'.closed s = true) : ∃ subs, .endSubscribers s subs ∈ w' := by
  cases h with
  | run h hw =>
    cases h with
    | alloc =>
      simp only [Function.update_apply] at hc'
      split_ifs at hc'
      rw [hc] at hc'
      cases hc'
    | @close s' r subs =>
      simp only [Function.update_apply] at hc'
      split_ifs at hc' with h
      · subst h
        exact ⟨subs, by simp⟩
      · rw [hc] at hc'
        cases hc'
    | _ => rw [hc] at hc'; cases hc'
  | _ => rw [hc] at hc'; cases hc'

theorem Exclusive.step (hk : Exclusive k w) (h : CoreStep k w o k' w') : Exclusive k' w' where
  seen := h.seen hk
  fresh s hs := by
    refine h.unknown (hk.fresh s (h.next_le.trans hs)) ?_
    rintro id rfl
    have hst := hk.starting id s (h.act_mem rfl rfl)
    exact absurd (h.next_le.trans hs) hst.lt.not_ge
  starting id s := h.starting hk
  token := h.token hk
  publisher := h.publisher hk
  opened := h.opened hk
  subscribers s subs hs := by
    -- it was pending, or the session has just been closed
    obtain hs | ⟨⟨r, hr⟩, hc⟩ := h.endSubscribers hs
    · obtain ⟨hlt, hc⟩ := hk.subscribers s subs hs
      exact ⟨hlt.trans_le h.next_le, h.closed_mono hlt hc⟩
    · have hlt : s < k.next := by
        by_contra hge
        exact (hk.fresh s (not_lt.mp hge)).ends r hr
      exact ⟨hlt.trans_le h.next_le, hc⟩
  roster s p hs := by
    obtain hs | ⟨⟨subs, hsubs⟩, rfl⟩ := h.endRoster hs
    · obtain ⟨hlt, hc, hp⟩ := hk.roster s p hs
      exact ⟨hlt.trans_le h.next_le, h.closed_mono hlt hc, (h.publisher_closed hlt hc).trans hp⟩
    · obtain ⟨hlt, hc⟩ := hk.subscribers s subs hsubs
      exact ⟨hlt.trans_le h.next_le, h.closed_mono hlt hc, h.publisher_closed hlt hc⟩
  closed s hc' := by
    by_cases hc : k.closed s = true
    · obtain ⟨subs, hs⟩ | ⟨p, hs⟩ | hs := hk.closed s hc
      · -- the call that closed `s` goes on
        obtain hs | ho := h.keeps hs
        · exact .inl ⟨subs, hs⟩
        · exact .inr (.inl (h.advances ho))
      · obtain hs | ho := h.keeps hs
        · exact .inr (.inl ⟨p, hs⟩)
        · -- it was its last section
          exact .inr (.inr (h.cleared hk hs ho))
      · -- nothing refers to `s`, which stays so
        exact .inr (.inr (h.unreferenced hk hc hs))
    · exact .inl (h.closes (by simpa using hc) hc')

end Step

lemma exclusive_init : Exclusive init.st.core (pending init) where
  seen id _ := rfl
  fresh s _ := ⟨fun _ => nofun, fun _ => nofun, fun _ => nofun, by simp, by simp⟩
  starting id s hs := by simp at hs
  token t s ht := by cases ht
  publisher p s hp := by cases hp
  subscribers s subs hs := by simp at hs
  roster s p hs := by simp at hs
  opened s hs := by cases hs
  closed s _ := by simp [Unreferenced, init, State.core, State.init]

theorem Reach.exclusive {G : Config → Label → Prop} {c : Config} (h : Reach G c) :
    Exclusive c.st.core (pending c) :=
  Machine.Reach.invariant (I := fun c => Exclusive c.st.core (pending c)) exclusive_init
    (fun _ _ _ hk _ hl => hk.step (step_core hl)) h

/-! ### Ended sessions stay ended -/

section Step

variable {k k' : Core} {w w' : Multiset Act} {o : Option Act} {s : SessionId}

/-- `s` was closed, and so it stays. -/
structure Ended (k : Core) (s : SessionId) : Prop where
  lt : s < k.next
  closed : k.closed s = true
  token : k.token s = s

lemma CoreStep.ends (h : CoreStep k w o k' w') (hk : Exclusive k w) {r : EndReason}
    (ho : o = some (.endScreenShareSession s r)) (hopen : k.closed s = false) : Ended k' s := by
  obtain ⟨hlt, htok⟩ := hk.opened s hopen
  cases h with
  | run h hw =>
    cases ho
    cases h with
    | idle ha => cases ha
    | again hc => rw [hopen] at hc; cases hc
    | close => exact ⟨hlt, by simp, htok⟩
  | _ => cases ho

lemma CoreStep.ended (h : CoreStep k w o k' w') (he : Ended k s) : Ended k' s where
  lt := he.lt.trans_le h.next_le
  closed := h.closed_mono he.lt he.closed
  token := by
    cases h with
    | run h hw =>
      cases h with
      | alloc => simpa [he.lt.ne] using he.token
      | _ => exact he.token
    | _ => exact he.token

end Step

/-- Neither an entry nor `sessions_by_token` refers to `s`. -/
def Gone (st : State) (s : SessionId) : Prop :=
  (∀ p, st.owned p ≠ some s) ∧ ∀ t, st.sessionsByToken.lookup t ≠ some s

lemma owner_eq_some {st : State} {p : PeerId} {s : SessionId} :
    st.core.owner p = some (some s) ↔ st.owned p = some s := by
  simp only [State.core, State.owned, Option.map_eq_some_iff, Option.bind_eq_some_iff]

lemma unreferenced_iff {st : State} {s : SessionId} : Unreferenced st.core s ↔ Gone st s := by
  simp only [Unreferenced, Gone, ne_eq, owner_eq_some]
  rfl

/-- The sections of `end_screen_share_session` after the one that closes `s`. -/
def Act.finishes (s : SessionId) : Act → Bool
  | .endSubscribers s' _ | .endRoster s' _ => s' = s
  | _ => false

section Runs

variable {G : Config → Label → Prop} {c c₁ c₂ : Config} {l : Label} {s : SessionId}

lemma ended_of_reach (h : Machine.Reach step G c c₁) (he : Ended c.st.core s) :
    Ended c₁.st.core s :=
  Machine.Reach.invariant (I := fun c => Ended c.st.core s) he
    (fun _ _ _ he _ hl => (step_core hl).ended he) h

lemma ended_of_close {r : EndReason} (hr : Reach G c)
    (ha : l.act c = some (.endScreenShareSession s r)) (hopen : (c.st.sessions s).closed = false)
    (hl : step c l = some c₁) : Ended c₁.st.core s :=
  (step_core hl).ends hr.exclusive ha hopen

lemma gone_of_done (hr : Reach G c) (he : Ended c.st.core s)
    (hdone : ∀ a ∈ c.work, a.finishes s = false) : Gone c.st s := by
  obtain ⟨subs, hs⟩ | ⟨p, hs⟩ | hu := hr.exclusive.closed s he.closed
  · simpa [Act.finishes] using hdone _ (mem_pendingOf.mp hs).1
  · simpa [Act.finishes] using hdone _ (mem_pendingOf.mp hs).1
  · exact unreferenced_iff.mp hu

lemma gone_stays (hr : Reach G c) (he : Ended c.st.core s) (hg : Gone c.st s)
    (h : Machine.Reach step G c c₁) : Gone c₁.st s :=
  Machine.Reach.invariant' (I := fun c => Gone c.st s) hg (fun _ _ _ hcd hg _ hl =>
    unreferenced_iff.mp <| (step_core hl).unreferenced (Reach.exclusive (hr.trans hcd))
      (ended_of_reach hcd he).closed (unreferenced_iff.mpr hg)) h

lemma resume_refused (hr : Reach G c) (he : Ended c.st.core s) (hg : Gone c.st s) (ch : Choice)
    (p : PeerId) : exec ch (.screenShareResume p (c.st.sessions s).token) c.st =
      some (c.st.reply p [.screenShareError "" .invalidToken]) := by
  have ht : c.st.sessionsByToken.lookup (c.st.sessions s).token = none :=
    hr.exclusive.byToken_eq_none (unreferenced_iff.mpr hg) he.token
  simp only [exec, State.screenShareResume, ht]

/-- What a resume of `p` may do to who owns what. -/
structure Claims (st st' : State) (p : PeerId) : Prop where
  /-- Whatever it moves, to `p` or away from its publisher, was open and free to take. -/
  moves : ∀ s, (st'.owned p = some s ∧ st.owned p ≠ some s) ∨
      (st'.sessions s).publisherId ≠ (st.sessions s).publisherId →
    (st.sessions s).closed = false ∧
      ((st.sessions s).publisherId = p ∨ st.peers.get (st.sessions s).publisherId = none)
  /-- `p` loses nothing, and takes nothing from the others. -/
  keeps : ∀ s, st.owned p = some s → st'.owned p = some s
  others : ∀ q, q ≠ p → st'.owned q = st.owned q

lemma owned_eq {st : State} (p : PeerId) : st.owned p = (st.core.owner p).bind id := by
  simp [State.owned, State.core, Option.bind_map]

lemma resume_claims {st : State} {ch : Choice} {p : PeerId} {t : Token} {r : Effect}
    (h : exec ch (.screenShareResume p t) st = some r) : Claims st r.st p := by
  have hown := exec_own h
  generalize hk' : r.st.core = k' at hown
  generalize coreActs r.next = next at hown
  have hpub : ∀ s, (r.st.sessions s).publisherId = k'.publisher s := fun s => by rw [← hk']; rfl
  have howned : ∀ q, r.st.owned q = (k'.owner q).bind id := fun q => by rw [← hk', owned_eq]
  cases hown with
  | idle =>
    constructor <;> simp [hpub, howned, owned_eq, State.core]
  | @claim _ _ s₀ o ht hold ho hs hc =>
    have hp : st.owned p = o := by simp [owned_eq, ho]
    constructor
    · -- only the claimed session moves
      intro s hmove
      have hs₀ : s = s₀ := by
        rcases hmove with ⟨hm, -⟩ | hm
        · simpa [howned] using hm.symm
        · by_contra hne
          simp [hpub, hne, State.core] at hm
      subst hs₀
      exact ⟨hc, hold.symm.imp id fun hn => by simpa [State.core] using hn⟩
    · intro s hps
      rw [hp] at hps
      obtain rfl : s = s₀ := by simpa [hps] using hs
      simp [howned]
    · intro q hq
      simp [howned, hq, owned_eq]

/-- **Exclusive ownership.** At every point of every run an owned session is published by
its owner, and so has no second one; a resume moves only an open session whose publisher is
the resuming peer or gone, and costs nobody a session. Once the call that closed `s` is
through its last section nothing refers to `s`, and its token resumes nothing ever after. -/
theorem exclusive_ownership {c : Config} (hr : Reach Machine.free c) :
    (∀ p s, c.st.owned p = some s → (c.st.sessions s).publisherId = p) ∧
    (∀ p q s, c.st.owned p = some s → c.st.owned q = some s → p = q) ∧
    (∀ ch p t r, exec ch (.screenShareResume p t) c.st = some r → Claims c.st r.st p) ∧
    ∀ l s r c₁, l.act c = some (.endScreenShareSession s r) → (c.st.sessions s).closed = false →
      step c l = some c₁ → ∀ c₂, Machine.Reach step Machine.free c₁ c₂ →
      (∀ a ∈ c₂.work, a.finishes s = false) →
      Gone c₂.st s ∧ ∀ c₃, Machine.Reach step Machine.free c₂ c₃ → ∀ ch p,
        exec ch (.screenShareResume p (c.st.sessions s).token) c₃.st =
          some (c₃.st.reply p [.screenShareError "" .invalidToken]) := by
  have hpub : ∀ p s, c.st.owned p = some s → (c.st.sessions s).publisherId = p :=
    fun p s hp => hr.exclusive.publisher p s (owner_eq_some.mpr hp)
  refine ⟨hpub, fun p q s hp hq => (hpub p s hp).symm.trans (hpub q s hq),
    fun ch p t r h => resume_claims h, ?_⟩
  intro l s r c₁ ha hopen hl c₂ h₂ hdone
  have hr₁ : Reach Machine.free c₁ := .tail l hr trivial hl
  have hr₂ : Reach Machine.free c₂ := hr₁.trans h₂
  have he₁ := ended_of_close hr ha hopen hl
  have he₂ := ended_of_reach h₂ he₁
  have hg₂ := gone_of_done hr₂ he₂ hdone
  refine ⟨hg₂, fun c₃ h₃ ch p => ?_⟩
  have he₃ := ended_of_reach h₃ he₂
  have htok : (c.st.sessions s).token = (c₃.st.sessions s).token :=
    (hr.exclusive.opened s hopen).2.trans he₃.token.symm
  rw [htok]
  exact resume_refused (hr₂.trans h₃) he₃ (gone_stays hr₂ he₂ hg₂ h₃) ch p

end Runs

/-- A peer joins, shares and is about to stop; the section that will close session `1` is next. -/
def stopping : List Label :=
  [.event (.join ⟨"p1", "c", false⟩ "A"), .run 0 .plain, .run 0 .plain, .run 0 .plain,
    .event (.screenShareStart "p1" ⟨true, none, some .vp9⟩),
    .run 1 .plain, .run 1 .plain, .run 1 .plain, .run 1 .plain,
    .event (.screenShareStop "p1"), .run 2 .plain]

/-- The rest of the stop. -/
def stopped : List Label :=
  stopping ++ [.run 2 .plain, .run 2 .plain, .run 2 .plain, .run 2 .plain]

theorem exclusive_ownership_stopped :
    Gone (after stopped).st 1 ∧
      exec .plain (.screenShareResume "p2" 1) (after stopped).st =
        some ((after stopped).st.reply "p2" [.screenShareError "" .invalidToken]) := by
  have h := exclusive_ownership (c := after stopping)
    (reach_after (by decide +kernel) (by decide +kernel))
  obtain ⟨hg, hr⟩ := h.2.2.2 (.run 2 .plain) 1 .publisherRequestedStop _ (by decide +kernel)
    (by decide +kernel) (step_after (by decide +kernel)) (after stopped)
    (@reach_after_append _ (stopping ++ [.run 2 .plain])
      [.run 2 .plain, .run 2 .plain, .run 2 .plain] (by decide +kernel) (by decide +kernel))
    (by decide +kernel)
  have htok : ((after stopping).st.sessions 1).token = 1 := by decide +kernel
  refine ⟨hg, ?_⟩
  rw [← htok]
  exact hr _ .init .plain "p2"

/-- Two calls end session `1`, and the second finds it closed. -/
def endedTwice : List Label :=
  stopping ++ [.run 2 .plain, .event (.publisherPcDied 1), .run 3 .plain, .run 4 .plain]

/-- A call that finds the session closed returns while the one that closed it is still under
way. -/
theorem exclusive_ownership_early_return :
    ¬ ∀ c, Reach Machine.free c → ∀ i ch s r c₁,
      c.head? i = some (.endScreenShareSession s r) → step c (.run i ch) = some c₁ →
      ∀ c₂, Machine.Reach step Machine.free c₁ c₂ →
      (∀ t ∈ c₂.threads[i]?, t.todo = []) → Gone c₂.st s := by
  intro h
  have hg := h (after endedTwice) (reach_after (by decide +kernel) (by decide +kernel)) 4 .plain 1
    .publisherPcClosed _ (by decide +kernel) (step_after (by decide +kernel)) _ .init
    (by decide +kernel)
  exact hg.1 "p1" (by decide +kernel)

end VoiceHub.Sfu.Room
