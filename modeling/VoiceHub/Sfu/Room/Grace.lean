import Mathlib
import VoiceHub.Sfu.Room.Exclusive

/-!
Grace windows: what happens to a share whose owner is gone.

A timer is armed while its session names it and its task still waits. Whoever replaces or
clears the name also cancels the timer, some steps later; the name is what counts.
-/

namespace VoiceHub.Sfu.Room

open VoiceHub.Lib

/-- Timer `t` is cancelled, or about to be. -/
def Spent (k : Core) (w : Multiset Act) (t : TimerId) : Prop :=
  .cancelTimer t ∈ w ∨ k.cancelled t = true

structure Timers (k : Core) (w : Multiset Act) : Prop where
  closed : ∀ s, k.closed s = true → k.grace s = none
  lt : ∀ s t, k.grace s = some t → t < k.next
  inj : ∀ s s' t, k.grace s = some t → k.grace s' = some t → s = s'
  spent : ∀ t, Spent k w t → t < k.next ∧ ∀ s, k.grace s ≠ some t
  armed : ∀ s t, k.grace s = some t →
    (t, s) ∈ k.timers ∨ .endScreenShareSession s (.graceExpired t) ∈ w

section Step

variable {k k' : Core} {w w' : Multiset Act} {o : Option Act} {s : SessionId} {t : TimerId}

lemma CoreStep.grace_of_closed (h : CoreStep k w o k' w') (hk : Timers k w)
    (hc : k'.closed s = true) : k'.grace s = none := by
  cases h with
  | run h hw =>
    cases h with
    | alloc =>
      simp only [Function.update_apply] at hc ⊢
      split_ifs at hc ⊢
      exact hk.closed s hc
    | close =>
      simp only [Function.update_apply] at hc ⊢
      split_ifs at hc ⊢
      · rfl
      · exact hk.closed s hc
    | arm ho =>
      simp only [Function.update_apply]
      split_ifs with hs
      · rw [← hs, hc] at ho; cases ho
      · exact hk.closed s hc
    | claim =>
      simp only [Function.update_apply]
      split_ifs
      · rfl
      · exact hk.closed s hc
    | _ => exact hk.closed s hc
  | _ => exact hk.closed s hc

lemma CoreStep.grace (h : CoreStep k w o k' w') (ht : k'.grace s = some t) :
    k.grace s = some t ∨ t = k.next ∧ k.next < k'.next ∧ (t, s) ∈ k'.timers ∧
      ∀ s', s' ≠ s → k'.grace s' = k.grace s' := by
  cases h with
  | run h hw =>
    cases h with
    | alloc | close | claim =>
      simp only [Function.update_apply] at ht
      split_ifs at ht
      exact .inl ht
    | arm =>
      simp only [Function.update_apply] at ht
      split_ifs at ht with hs
      · subst hs
        cases ht
        exact .inr ⟨rfl, Nat.lt_succ_self _, List.mem_cons_self .., fun s' hne => by simp [hne]⟩
      · exact .inl ht
    | _ => exact .inl ht
  | _ => exact .inl ht

lemma CoreStep.spent (h : CoreStep k w o k' w') (hk : Timers k w) (ht : Spent k' w' t) :
    Spent k w t ∨ ∃ s, k.grace s = some t ∧ k'.grace s ≠ some t := by
  have stays {W : Multiset Act} {a : Act} (hW : w = ↑(coreActs [a]) + W) (hm : .cancelTimer t ∈ W) :
      Spent k w t := .inl (hW ▸ Multiset.mem_add.mpr (.inr hm))
  cases h with
  | @run a _ _ W h hw =>
    cases h with
    | @arm s p =>
      rcases ht with ht | ht
      · exact .inl (stays hw (by simpa using ht))
      -- the window it had before is called off
      rcases hg : k.grace s with _ | prev
      · simp only [hg, State.cancelPrev] at ht
        exact .inl (.inr ht)
      · simp only [hg, State.cancelPrev, Function.update_apply] at ht
        split_ifs at ht with h
        · refine .inr ⟨s, by rw [hg, h], ?_⟩
          simpa [h] using (hk.lt s prev hg).ne'
        · exact .inl (.inr ht)
    | @cancelTimer t' =>
      rcases ht with ht | ht
      · -- the section has cancelled its own timer
        exact .inl (stays hw (by simpa using ht))
      · simp only [Function.update_apply] at ht
        split_ifs at ht with h
        · subst h
          exact .inl (.inl (hw ▸ Multiset.mem_cons_self ..))
        · exact .inl (.inr ht)
    -- the section that lets the timer go cancels it
    | @close s | @claim _ _ s =>
      rcases ht with ht | ht
      · obtain hm | hm := Multiset.mem_add.mp ht
        · exact .inr ⟨s, by simpa using hm, by simp⟩
        · exact .inl (stays hw hm)
      · exact .inl (.inr ht)
    | leave =>
      rcases ht with ht | ht
      · exact .inl (stays hw (by simpa using ht))
      · exact .inl (.inr ht)
    | _ =>
      rcases ht with ht | ht
      · exact .inl (stays hw (by simpa using ht))
      · exact .inl (.inr ht)
  | _ =>
    rcases ht with ht | ht
    · exact .inl (.inl (by simpa using ht))
    · exact .inl (.inr ht)

lemma CoreStep.armed (h : CoreStep k w o k' w') (hk : Timers k w) (ht : k'.grace s = some t)
    (hold : k.grace s = some t) :
    (t, s) ∈ k'.timers ∨ .endScreenShareSession s (.graceExpired t) ∈ w' := by
  obtain hm | hm := hk.armed s t hold
  · cases h with
    | run h hw =>
      left
      cases h with
      -- the new timer waits beside the others
      | arm => exact List.mem_cons_of_mem _ hm
      | _ => exact hm
    | begin => exact .inl hm
    | @expire t' s' =>
      -- it is this timer that fires
      by_cases heq : (t, s) = (t', s')
      · cases heq
        exact .inr (Multiset.mem_cons_self ..)
      · exact .inl ((List.mem_erase_of_ne heq).mpr hm)
    | @disarm t' s' _ hc =>
      -- a timer that is called off is no session's any more
      refine .inl ((List.mem_erase_of_ne ?_).mpr hm)
      rintro ⟨⟩
      exact (hk.spent t (.inr hc)).2 s hold
  · obtain hm | ho := h.keeps hm
    · exact .inr hm
    · -- the section that ends the session clears its timer
      cases h with
      | run h hw =>
        cases ho
        cases h with
        | idle ha => cases ha
        | again hc => rw [hk.closed s hc] at hold; cases hold
        | close => simp at ht
      | _ => cases ho

theorem Timers.step (hk : Timers k w) (h : CoreStep k w o k' w') : Timers k' w' where
  closed s := h.grace_of_closed hk
  lt s t ht := by
    obtain hold | ⟨rfl, hlt, -⟩ := h.grace ht
    · exact (hk.lt s t hold).trans_le h.next_le
    · exact hlt
  inj s s' t ht ht' := by
    by_contra hne
    -- two sessions with one timer: at most one of them has just got it
    obtain hold | ⟨rfl, -, -, hrest⟩ := h.grace ht
    · obtain hold' | ⟨rfl, -⟩ := h.grace ht'
      · exact hne (hk.inj s s' t hold hold')
      · exact absurd (hk.lt s _ hold) (lt_irrefl _)
    · rw [hrest s' (Ne.symm hne)] at ht'
      exact absurd (hk.lt s' _ ht') (lt_irrefl _)
  spent t ht := by
    -- it was spent before, and a new timer is another one
    obtain hold | ⟨s, hs, hs'⟩ := h.spent hk ht
    · obtain ⟨hlt, hno⟩ := hk.spent t hold
      refine ⟨hlt.trans_le h.next_le, fun s hs => ?_⟩
      obtain hs | ⟨rfl, -⟩ := h.grace hs
      · exact hno s hs
      · exact absurd hlt (lt_irrefl _)
    · have hlt := hk.lt s t hs
      refine ⟨hlt.trans_le h.next_le, fun s₁ hs₁ => ?_⟩
      obtain hold | ⟨rfl, -⟩ := h.grace hs₁
      · exact hs' (hk.inj s₁ s t hold hs ▸ hs₁)
      · exact absurd hlt (lt_irrefl _)
  armed s t ht := by
    obtain hold | ⟨-, -, hmem, -⟩ := h.grace ht
    · exact h.armed hk ht hold
    · exact .inl hmem

end Step

lemma timers_init : Timers init.st.core (pending init) where
  closed s _ := rfl
  lt s t ht := by cases ht
  inj s s' t ht := by cases ht
  spent t ht := by
    rcases ht with ht | ht
    · simp at ht
    · cases ht
  armed s t ht := by cases ht

theorem Reach.timers {G : Config → Label → Prop} {c : Config} (h : Reach G c) :
    Timers c.st.core (pending c) :=
  Machine.Reach.invariant (I := fun c => Timers c.st.core (pending c)) timers_init
    (fun _ _ _ hk _ hl => hk.step (step_core hl)) h

/-! ### No orphans, unless an owner is evicted -/

/-- Session `s` has an owner or a window, or a thread that sees to it. -/
def Covered (k : Core) (w : Multiset Act) (s : SessionId) : Prop :=
  k.owner (k.publisher s) = some (some s) ∨ k.grace s ≠ none ∨
    (∃ p, .startScreenShareGrace s p ∈ w) ∨ ∃ r, .endScreenShareSession s r ∈ w

/-- An arriving peer evicts nobody who shares. -/
def evictsNoOwner (c : Config) : Act → Bool
  | .addPeer p _ => (c.st.evicted .plain p).all fun e => e.screenSession.isNone
  | _ => true

section Step

variable {k k' : Core} {w w' : Multiset Act} {o : Option Act} {s : SessionId} {t : Token}

/-- The owner of an open session has it still, or was evicted, or left a window to be armed. -/
lemma CoreStep.owner_moves {p : PeerId} (h : CoreStep k w o k' w') (hk : Exclusive k w)
    (hc : k.closed s = false) (ho : k.owner p = some (some s)) :
    k'.owner p = some (some s) ∨ k'.owner p = none ∧ ((∃ q name, o = some (.addPeer q name) ∧
      q.clientId ≠ "" ∧ ∃ x, k.peer p = some x ∧ x.clientId = q.clientId) ∨
        .startScreenShareGrace s p ∈ w') := by
  cases h with
  | run h hw =>
    subst hw
    cases h with
    | @join q name gone hp hgone =>
      -- who joins has had no entry
      have hne : p ≠ q.id := by
        rintro rfl
        rw [hk.seen _ hp] at ho
        cases ho
      by_cases hin : p ∈ gone
      · exact .inr ⟨by simp [hne, hin], .inl ⟨q, name, rfl, hgone p hin⟩⟩
      · left
        simpa [hne, hin] using ho
    | @leave id o' ho' =>
      by_cases hid : p = id
      · subst hid
        obtain rfl : o' = some s := (Option.some.inj (ho.symm.trans ho')).symm
        exact .inr ⟨by simp, .inr (by simp)⟩
      · left
        simpa [hid] using ho
    | @register id _ hfree =>
      left
      have hne : p ≠ id := by
        rintro rfl
        rw [ho] at hfree
        cases hfree
      simpa [hne] using ho
    | @clear s' q =>
      left
      -- only a closed session is taken off
      have hne : s ≠ s' := by
        rintro rfl
        rw [(hk.roster s q (Multiset.mem_cons_self ..)).2.1] at hc
        cases hc
      have hcond : ¬(p = q ∧ k.owner q = some (some s')) := by
        rintro ⟨rfl, hq⟩
        rw [ho] at hq
        exact hne (Option.some.inj (Option.some.inj hq))
      simpa [hcond] using ho
    | @claim id t s' o' _ _ ho' hs' =>
      left
      -- a claim leaves its caller the session it has
      by_cases hid : p = id
      · subst hid
        rw [ho] at ho'
        cases ho'
        obtain rfl : s = s' := by simpa using hs'
        simp
      · simpa [hid] using ho
    | _ => exact .inl ho
  | _ => exact .inl ho

lemma CoreStep.owner_covered (h : CoreStep k w o k' w') (hk : Exclusive k w)
    (hg : ∀ p name, o = some (.addPeer p name) → ∀ q x, k.peer q = some x → p.clientId ≠ "" →
      x.clientId = p.clientId → k.owner q = some none)
    (hc : k'.closed s = false) (ho : k.owner (k.publisher s) = some (some s)) :
    Covered k' w' s := by
  have hlt : s < k.next := not_le.mp fun hle => (hk.fresh s hle).owner _ ho
  have hopen : k.closed s = false := by
    by_contra hcl
    rw [h.closed_mono hlt (by simpa using hcl)] at hc
    cases hc
  obtain hstay | ⟨-, ⟨q, name, rfl, hne, x, hx, hqc⟩ | harm⟩ := h.owner_moves hk hopen ho
  · left
    rw [h.publisher hk _ _ hstay]
    exact hstay
  · rw [hg q name rfl _ x hx hne hqc] at ho
    cases ho
  · exact .inr (.inr (.inl ⟨_, harm⟩))

lemma CoreStep.grace_covered (h : CoreStep k w o k' w') (hs : s < k.next)
    (hc : k'.closed s = false) (hgr : k.grace s ≠ none) : Covered k' w' s := by
  cases h with
  | run h hw =>
    cases h with
    | alloc => exact .inr (.inl (by simpa [hs.ne] using hgr))
    | arm =>
      refine .inr (.inl ?_)
      simp only [Function.update_apply]
      split_ifs
      · simp
      · exact hgr
    | @close s' =>
      have hne : s ≠ s' := by rintro rfl; simp at hc
      exact .inr (.inl (by simpa [hne] using hgr))
    | @claim id t s' =>
      by_cases hs : s = s'
      · exact .inl (by simp [hs])
      · exact .inr (.inl (by simpa [hs] using hgr))
    | _ => exact .inr (.inl hgr)
  | _ => exact .inr (.inl hgr)

lemma CoreStep.covered (h : CoreStep k w o k' w') (hk : Exclusive k w)
    (hg : ∀ p name, o = some (.addPeer p name) → ∀ q x, k.peer q = some x → p.clientId ≠ "" →
      x.clientId = p.clientId → k.owner q = some none)
    (hs : s < k.next) (hc : k'.closed s = false) (hcov : Covered k w s) : Covered k' w' s := by
  obtain hown | hgr | ⟨p, hp⟩ | ⟨r, hr⟩ := hcov
  · exact h.owner_covered hk hg hc hown
  · exact h.grace_covered hs hc hgr
  · obtain hp | ho := h.keeps hp
    · exact .inr (.inr (.inl ⟨p, hp⟩))
    · -- the pending step arms a window, as the session is open
      cases h with
      | run h hw =>
        cases ho
        cases h with
        | idle ha => cases ha
        | late hcl => rw [hc] at hcl; cases hcl
        | arm => exact .inr (.inl (by simp))
      | _ => cases ho
  · obtain hr | ho := h.keeps hr
    · exact .inr (.inr (.inr ⟨r, hr⟩))
    · -- the pending step closes the session, or finds it closed
      cases h with
      | run h hw =>
        cases ho
        cases h with
        | idle ha => cases ha
        | again hcl => rw [hc] at hcl; cases hcl
        | close => simp at hc
      | _ => cases ho

lemma CoreStep.byToken (h : CoreStep k w o k' w') (hk : Exclusive k w)
    (ht : k'.byToken t = some s) :
    k.byToken t = some s ∨ k'.owner (k'.publisher s) = some (some s) := by
  cases h with
  | run h hw =>
    subst hw
    cases h with
    | @register id s' =>
      simp only [Function.update_apply] at ht
      split_ifs at ht
      · cases ht
        right
        simp [(hk.starting id s (Multiset.mem_cons_self ..)).publisher]
      · exact .inl ht
    | clear =>
      simp only [Function.update_apply] at ht
      split_ifs at ht
      exact .inl ht
    | _ => exact .inl ht
  | _ => exact .inl ht

end Step

lemma guard_core {c : Config} {l : Label} (hg : guard evictsNoOwner c l) (p : Peer) (name : String)
    (ha : l.act c = some (.addPeer p name)) (q : PeerId) (x : Peer)
    (hq : c.st.core.peer q = some x) (hne : p.clientId ≠ "") (hx : x.clientId = p.clientId) :
    c.st.core.owner q = some none := by
  obtain ⟨e, he, rfl⟩ := Option.map_eq_some_iff.mp hq
  have hid := c.st.peers.id_of_get he
  have hmem : e ∈ c.st.evicted .plain p := by
    rw [State.evicted, if_neg hne, List.mem_filter, Order.mem_list, Peers.mem_values, hid]
    exact ⟨he, by simpa using hx⟩
  have hnone : e.screenSession = none := by
    simpa using List.all_eq_true.mp (hg _ ha) e hmem
  simp [State.core, he, hnone]

theorem Reach.covered {c : Config} (h : Reach (guard evictsNoOwner) c) :
    ∀ t s, c.st.core.byToken t = some s → c.st.core.closed s = false →
      Covered c.st.core (pending c) s := by
  refine Machine.Reach.invariant' (I := fun c => ∀ t s, c.st.core.byToken t = some s →
    c.st.core.closed s = false → Covered c.st.core (pending c) s) ?_ ?_ h
  · intro t s ht
    simp [init, State.core, State.init] at ht
  · intro c l c' hr ih hg hl t s ht hc
    have hk := Reach.exclusive hr
    have hstep := step_core hl
    obtain hold | hown := hstep.byToken hk ht
    · have hs : s < c.st.core.next := by
        by_contra hge
        exact (hk.fresh s (not_lt.mp hge)).byToken t hold
      have hopen : c.st.core.closed s = false := by
        by_contra hcl
        rw [hstep.closed_mono hs (by simpa using hcl)] at hc
        cases hc
      exact hstep.covered hk (guard_core hg) hs hc (ih t s hold hopen)
    · exact .inl hown

/-- Every share in `sessions_by_token` that is not closed has a connected owner, or a window
that will end it. -/
def NoOrphan (st : State) : Prop :=
  ∀ t s, st.sessionsByToken.lookup t = some s → (st.sessions s).closed = false →
    st.owned (st.sessions s).publisherId = some s ∨
      ∃ tm, (st.sessions s).grace = some tm ∧ (tm, s) ∈ st.timers ∧ st.cancelled tm = false

/-- **No orphans, unless an owner is evicted.** -/
theorem no_orphaned_share {c : Config} (h : Reach (guard evictsNoOwner) c) (hq : c.Quiet) :
    NoOrphan c.st := by
  intro t s ht hc
  have hnone : ∀ a, a ∉ pending c := fun a ha => by
    rw [mem_pendingOf, show c.work = [] from hq] at ha
    simp at ha
  obtain hown | hgr | ⟨p, hp⟩ | ⟨r, hr⟩ := h.covered t s ht hc
  · exact .inl (owner_eq_some.mp hown)
  · right
    obtain ⟨tm, htm⟩ := Option.ne_none_iff_exists'.mp hgr
    refine ⟨tm, htm, ?_, ?_⟩
    · exact (h.timers.armed s tm htm).resolve_right (hnone _)
    · by_contra hcan
      exact (h.timers.spent tm (.inr (by simpa [State.core] using hcan))).2 s htm
  · exact absurd hp (hnone _)
  · exact absurd hr (hnone _)

/-- A peer joins and shares. -/
def sharing : List Label :=
  [.event (.join ⟨"p1", "c", false⟩ "A"), .run 0 .plain, .run 0 .plain, .run 0 .plain,
    .event (.screenShareStart "p1" ⟨true, none, some .vp9⟩),
    .run 1 .plain, .run 1 .plain, .run 1 .plain, .run 1 .plain]

/-- It leaves. -/
def left : List Label :=
  sharing ++ [.event (.leave "p1"), .run 2 .plain, .run 2 .plain, .run 2 .plain, .run 2 .plain]

theorem no_orphaned_share_left : NoOrphan (after left).st :=
  no_orphaned_share (reach_after (by decide +kernel) (by decide +kernel)) (by decide +kernel)

/-- It joins once more instead, under a new id, and its old connection is cleaned up after. -/
def rejoined : List Label :=
  sharing ++ [.event (.join ⟨"p2", "c", false⟩ "A"), .run 2 .plain, .run 2 .plain, .run 2 .plain,
    .run 2 .plain, .run 2 .plain, .event (.leave "p1"), .run 3 .plain]

/-- The eviction arms no window, and the cleanup finds no entry. -/
theorem orphaned_share : ¬ ∀ c, Reach Machine.free c → c.Quiet → NoOrphan c.st := by
  intro h
  have hno := h (after rejoined) (reach_after (by decide +kernel) (by decide +kernel))
    (by decide +kernel)
  obtain hown | ⟨tm, htm, -⟩ := hno 1 1 (by decide +kernel) (by decide +kernel)
  · exact absurd hown (by decide +kernel)
  · have hnone : ((after rejoined).st.sessions 1).grace = none := by decide +kernel
    rw [hnone] at htm
    cases htm

/-! ### A resumed share survives, unless an old window was on its way -/

/-- A window of `s` is about to be armed, or is past its select. -/
def Act.threatens (s : SessionId) : Act → Bool
  | .startScreenShareGrace s' _ => s' = s
  | .endScreenShareSession s' (.graceExpired _) => s' = s
  | _ => false

/-- The grace task that picks its expired branch. -/
def Label.expired : Label → Option (TimerId × SessionId)
  | .event (.graceExpired tm s) => some (tm, s)
  | _ => none

/-- A grace task of `s` picks its expired branch only while the session has its timer. -/
def InTime (s : SessionId) (c : Config) (l : Label) : Prop :=
  ∀ x ∈ l.expired, x.2 = s → (c.st.sessions s).grace = some x.1

instance (s : SessionId) (c : Config) (l : Label) : Decidable (InTime s c l) :=
  inferInstanceAs (Decidable (∀ x ∈ l.expired, x.2 = s → (c.st.sessions s).grace = some x.1))

/-- The share is neither stopped nor ended with its publisher PC. -/
def keepsSharing (s : SessionId) (_ : Config) : Act → Bool
  | .endScreenShareSession s' .publisherRequestedStop => s' ≠ s
  | .endScreenShareSession s' .publisherPcClosed => s' ≠ s
  | _ => true

/-- `p` has the share, and no window of it is open or on its way. -/
structure Sharing (k : Core) (w : Multiset Act) (p : PeerId) (s : SessionId) : Prop where
  owner : k.owner p = some (some s)
  closed : k.closed s = false
  grace : k.grace s = none
  safe : ∀ a ∈ w, a.threatens s = false

section Step

variable {k k' : Core} {w w' : Multiset Act} {o : Option Act} {p : PeerId} {s : SessionId}

lemma CoreStep.seen_stays (h : CoreStep k w o k' w') (hs : k.seen p ≠ none) : k'.seen p ≠ none := by
  cases h with
  | run h hw =>
    cases h with
    | join =>
      simp only [Function.update_apply]
      split_ifs
      · simp
      · exact hs
    | _ => exact hs
  | _ => exact hs

lemma CoreStep.gone_stays (h : CoreStep k w o k' w') (hs : k.seen p ≠ none)
    (ho : k.owner p = none) : k'.owner p = none := by
  cases h with
  | run h hw =>
    cases h with
    | @join q _ _ hp =>
      have hne : p ≠ q.id := by rintro rfl; exact hs hp
      simp [hne, ho]
    | leave => simp [Function.update_apply, ho]
    | @register id _ hfree | @claim id _ _ _ _ _ hfree =>
      have hne : p ≠ id := by rintro rfl; rw [ho] at hfree; cases hfree
      simp [hne, ho]
    | clear =>
      simp only
      split_ifs with h
      · rw [← h.1, ho] at h; cases h.2
      · exact ho
    | _ => exact ho
  | _ => exact ho

lemma CoreStep.owner_stays (h : CoreStep k w o k' w') (hk : Exclusive k w)
    (hc : k.closed s = false) (ho : k.owner p = some (some s)) :
    k'.owner p = none ∨ k'.owner p = some (some s) :=
  (h.owner_moves hk hc ho).symm.imp_left And.left

lemma CoreStep.open_stays (h : CoreStep k w o k' w') (hc : k.closed s = false)
    (ho : ∀ r, o ≠ some (.endScreenShareSession s r)) : k'.closed s = false := by
  cases h with
  | run h hw =>
    cases h with
    | alloc =>
      simp only [Function.update_apply]
      split_ifs
      · rfl
      · exact hc
    | @close s' r =>
      have hne : s ≠ s' := by rintro rfl; exact ho r rfl
      simpa [hne] using hc
    | _ => exact hc
  | _ => exact hc

lemma CoreStep.unarmed_stays (h : CoreStep k w o k' w') (hg : k.grace s = none)
    (ho : ∀ q, o ≠ some (.startScreenShareGrace s q)) : k'.grace s = none := by
  cases h with
  | run h hw =>
    cases h with
    | alloc | close | claim =>
      simp only [Function.update_apply]
      split_ifs
      · rfl
      · exact hg
    | @arm s' q =>
      have hne : s ≠ s' := by rintro rfl; exact ho q rfl
      simpa [hne] using hg
    | _ => exact hg
  | _ => exact hg

/-- A window of `s` is on its way only since its owner went, or since a task's timer fired. -/
lemma CoreStep.threat (h : CoreStep k w o k' w') {a : Act} (ha : a ∈ w')
    (hs : a.threatens s = true) :
    a ∈ w ∨ (∃ id, o = some (.removePeer id) ∧ k.owner id = some (some s) ∧ k'.owner id = none) ∨
      o = none ∧ ∃ tm, a = .endScreenShareSession s (.graceExpired tm) := by
  cases h with
  | run h hw =>
    subst hw
    obtain ha | ha := Multiset.mem_add.mp ha
    · cases h with
      -- the leaving owner is to have a window armed
      | @leave id o ho =>
        obtain ⟨s', rfl, rfl⟩ : ∃ s', o = some s' ∧ a = .startScreenShareGrace s' id := by
          simpa [eq_comm] using ha
        obtain rfl : s' = s := by simpa [Act.threatens] using hs
        exact .inr (.inl ⟨id, rfl, ho, by simp⟩)
      | alloc | stop | find | subscribers =>
        obtain rfl := by simpa using ha
        cases hs
      | close =>
        simp only [Multiset.mem_coe, List.mem_append, List.mem_map, List.mem_singleton] at ha
        obtain ⟨_, _, rfl⟩ | rfl := ha <;> cases hs
      | claim =>
        obtain ⟨_, _, rfl⟩ := List.mem_map.mp (Multiset.mem_coe.mp ha)
        cases hs
      | _ => simp at ha
    · exact .inl (Multiset.mem_add.mpr (.inr ha))
  | begin | disarm => exact .inl ha
  -- a timer that fires has its section to come
  | @expire tm s' =>
    obtain rfl | ha := Multiset.mem_cons.mp ha
    · obtain rfl : s' = s := by simpa [Act.threatens] using hs
      exact .inr (.inr ⟨rfl, tm, rfl⟩)
    · exact .inl ha

theorem Sharing.step (hk : Exclusive k w) (hp : Sharing k w p s) (h : CoreStep k w o k' w')
    (hend : ∀ r, o = some (.endScreenShareSession s r) → ∃ tm, r = .graceExpired tm)
    (hexp : o = none → ∀ tm, .endScreenShareSession s (.graceExpired tm) ∈ w' →
      .endScreenShareSession s (.graceExpired tm) ∈ w ∨ k.grace s = some tm) :
    k'.owner p = none ∨ Sharing k' w' p s := by
  have harm : ∀ q, o ≠ some (.startScreenShareGrace s q) := by
    rintro q rfl
    have := hp.safe _ (h.act_mem rfl rfl)
    simp [Act.threatens] at this
  have hclose : ∀ r, o ≠ some (.endScreenShareSession s r) := by
    rintro r rfl
    obtain ⟨tm, rfl⟩ := hend r rfl
    have := hp.safe _ (h.act_mem rfl rfl)
    simp [Act.threatens] at this
  refine (h.owner_stays hk hp.closed hp.owner).imp_right fun ho =>
    ⟨ho, h.open_stays hp.closed hclose, h.unarmed_stays hp.grace harm, fun a ha => ?_⟩
  by_contra hthreat
  have hs : a.threatens s = true := by simpa using hthreat
  obtain hold | ⟨id, -, hid, hid'⟩ | ⟨rfl, tm, rfl⟩ := h.threat ha hs
  · rw [hp.safe a hold] at hs
    cases hs
  · -- the owner is `p`, which stayed
    obtain rfl : id = p := (hk.publisher id s hid).symm.trans (hk.publisher p s hp.owner)
    rw [hid'] at ho
    cases ho
  · obtain hold | hgr := hexp rfl tm ha
    · rw [hp.safe _ hold] at hs
      cases hs
    · rw [hp.grace] at hgr
      cases hgr

end Step

lemma expired_of_step {c c' : Config} {l : Label} {s : SessionId} {tm : TimerId}
    (hl : step c l = some c') (ho : l.act c = none)
    (hm : .endScreenShareSession s (.graceExpired tm) ∈ pending c') :
    .endScreenShareSession s (.graceExpired tm) ∈ pending c ∨ l.expired = some (tm, s) := by
  cases l with
  | run i ch =>
    obtain ⟨a, -, -, ha, -⟩ := Pool.advance_work hl
    rw [Label.act, ha] at ho
    cases ho
  | event e =>
    obtain ⟨st, o, todo, hb, rfl, -⟩ := step_event hl
    rw [show pending (c.launch st o todo) = _ from pendingOf_launch ..] at hm
    obtain hm | hm := Multiset.mem_add.mp hm
    · right
      obtain ⟨hm, -⟩ := List.mem_filter.mp (Multiset.mem_coe.mp hm)
      cases e <;> simp only [Event.begin, Event.begin.message] at hb <;> (try split at hb) <;>
        cases hb <;> simp at hm
      obtain ⟨rfl, rfl⟩ := hm
      rfl
    · exact .inl hm

section Runs

variable {c c₁ c₂ : Config} {l : Label} {p : PeerId} {t : Token} {s : SessionId}

lemma resume_disarms {st : State} {ord : Order} {r : Effect}
    (h : st.screenShareResume ord p t = r)
    (hpub : st.owned p = some s → (st.sessions s).publisherId = p)
    (ht : st.sessionsByToken.lookup t = some s) (hown : r.st.owned p = some s)
    (hopen : (r.st.sessions s).closed = false) : (r.st.sessions s).grace = none := by
  simp only [State.screenShareResume, ht] at h
  split at h
  · -- the owner is still connected: it would be the caller itself
    next hold =>
    subst h
    exact absurd (hpub hown) hold.2
  split at h
  · -- the caller has left
    next he =>
    subst h
    simp [State.owned, State.go, he] at hown
  next e he =>
  split at h
  · -- the caller owns something else
    next hother =>
    subst h
    have hes : e.screenSession = some s := by
      simpa [State.owned, State.reply, State.go, State.tick, he] using hown
    exact absurd hes hother.2
  split at h
  · -- the session was closed already
    next hc =>
    subst h
    exact absurd (hc.symm.trans hopen) (by simp)
  · subst h
    simp [State.go, State.setSession]

lemma sharing_of_resume (hr : Reach Machine.free c)
    (ha : l.act c = some (.screenShareResume p t))
    (ht : c.st.sessionsByToken.lookup t = some s) (hs : ∀ a ∈ c.work, a.threatens s = false)
    (hl : step c l = some c₁) (hown : c₁.st.owned p = some s)
    (hopen : (c₁.st.sessions s).closed = false) : Sharing c₁.st.core (pending c₁) p s := by
  refine ⟨owner_eq_some.mpr hown, hopen, ?_, fun a hm => ?_⟩
  · cases l with
    | event e => cases ha
    | run i ch =>
      obtain ⟨a, r, W, ha', he, hst, -⟩ := Pool.advance_work hl
      obtain rfl : .screenShareResume p t = a := Option.some.inj (ha.symm.trans ha')
      obtain rfl := Option.some.inj he
      have hpub : c.st.owned p = some s → (c.st.sessions s).publisherId = p := fun ho =>
        hr.exclusive.publisher p s (owner_eq_some.mpr ho)
      rw [hst] at hown hopen ⊢
      exact resume_disarms rfl hpub ht hown hopen
  · by_contra hthreat
    have hs' : a.threatens s = true := by simpa using hthreat
    have hstep := step_core hl
    -- what threatens it now did so before, or comes from a leave or a timer
    obtain hold | ⟨id, ho, -⟩ | ⟨ho, -⟩ := hstep.threat hm hs'
    · rw [hs a (mem_pendingOf.mp hold).1] at hs'
      cases hs'
    · rw [ha] at ho
      cases ho
    · rw [ha] at ho
      cases ho

lemma sharing_of_reach (hr : Reach Machine.free c₁) (hp : Sharing c₁.st.core (pending c₁) p s)
    (h : Machine.Reach step (fun c l => InTime s c l ∧ guard (keepsSharing s) c l) c₁ c₂) :
    c₂.st.core.owner p = none ∨ Sharing c₂.st.core (pending c₂) p s := by
  have hseen : c₁.st.core.seen p ≠ none := fun hs => by
    have ho := hp.owner
    rw [hr.exclusive.seen p hs] at ho
    cases ho
  refine (Machine.Reach.invariant' (I := fun c => c.st.core.seen p ≠ none ∧
    (c.st.core.owner p = none ∨ Sharing c.st.core (pending c) p s)) ⟨hseen, .inr hp⟩ ?_ h).2
  rintro c l c' hcd ⟨hseen, hp⟩ ⟨htime, hkeeps⟩ hl
  have hstep := step_core hl
  refine ⟨hstep.seen_stays hseen, ?_⟩
  obtain hgone | hp := hp
  · exact .inl (hstep.gone_stays hseen hgone)
  refine hp.step (Reach.exclusive (hr.trans hcd.to_free)) hstep (fun r ha => ?_)
    fun ho tm hm => ?_
  · have hr := hkeeps _ ha
    cases r with
    | graceExpired tm => exact ⟨tm, rfl⟩
    | _ => simp [keepsSharing] at hr
  · exact (expired_of_step hl ho hm).imp_right fun hx => htime (tm, s) hx rfl

/-- **A resumed share survives.** After `p` took `s` by its token, with no window of `s` on its
way, and as long as `p` is connected and the share is not ended otherwise, it goes on. -/
theorem resumed_share_survives (hr : Reach Machine.free c)
    (ha : l.act c = some (.screenShareResume p t))
    (ht : c.st.sessionsByToken.lookup t = some s) (hs : ∀ a ∈ c.work, a.threatens s = false)
    (hl : step c l = some c₁) (hown : c₁.st.owned p = some s)
    (hopen : (c₁.st.sessions s).closed = false)
    (hr₂ : Machine.Reach step (fun c l => InTime s c l ∧ guard (keepsSharing s) c l) c₁ c₂)
    (hconn : (c₂.st.peers.get p).isSome) :
    (c₂.st.sessions s).closed = false ∧ c₂.st.owned p = some s := by
  have hr₁ : Reach Machine.free c₁ := .tail l hr trivial hl
  obtain hgone | hp :=
    sharing_of_reach hr₁ (sharing_of_resume hr ha ht hs hl hown hopen) hr₂
  · obtain ⟨e, he⟩ := Option.isSome_iff_exists.mp hconn
    simp [State.core, he] at hgone
  · exact ⟨hp.closed, owner_eq_some.mp hp.owner⟩

end Runs

/-- Another peer comes with the token of a share left behind, and is about to claim it. -/
def resuming : List Label :=
  left ++ [.event (.join ⟨"p2", "d", false⟩ "B"), .run 3 .plain, .run 3 .plain, .run 3 .plain,
    .event (.screenShareResume "p2" 1)]

/-- After the claim the old window is cancelled, and the share announced. -/
def goingOn : List Label :=
  [.run 4 .plain, .event (.graceCancelled 2 1), .run 4 .plain, .run 4 .plain, .run 4 .plain]

theorem resumed_share_survives_goingOn :
    ((after (resuming ++ [.run 4 .plain] ++ goingOn)).st.sessions 1).closed = false ∧
      (after (resuming ++ [.run 4 .plain] ++ goingOn)).st.owned "p2" = some 1 :=
  @resumed_share_survives (after resuming) _ _ (.run 4 .plain) "p2" 1 1
    (reach_after (by decide +kernel) (by decide +kernel)) (by decide +kernel) (by decide +kernel)
    (by decide +kernel) (step_after (by decide +kernel)) (by decide +kernel) (by decide +kernel)
    (reach_after_append (by decide +kernel) (by decide +kernel)) (by decide +kernel)

/-- The owner leaves, and before the window is armed another peer is about to resume. -/
def resumedEarly : List Label :=
  sharing ++ [.event (.leave "p1"), .run 2 .plain,
    .event (.join ⟨"p2", "d", false⟩ "B"), .run 3 .plain, .run 3 .plain, .run 3 .plain,
    .event (.screenShareResume "p2" 1)]

/-- After the claim the window is armed, and expires. -/
def armedLate : List Label :=
  [.run 4 .plain, .run 4 .plain, .run 4 .plain, .run 2 .plain, .event (.graceExpired 2 1),
    .run 5 .plain]

/-- A window that is armed after the resume ends the share of its connected owner. -/
theorem resumed_share_ended : ¬ ∀ (c c₁ c₂ : Config) (l : Label) (p : PeerId) (t : Token)
    (s : SessionId), Reach Machine.free c → l.act c = some (.screenShareResume p t) →
    c.st.sessionsByToken.lookup t = some s → step c l = some c₁ → c₁.st.owned p = some s →
    (c₁.st.sessions s).closed = false → Machine.Reach step (guard (keepsSharing s)) c₁ c₂ →
    (c₂.st.peers.get p).isSome →
    (c₂.st.sessions s).closed = false ∧ c₂.st.owned p = some s := by
  intro h
  have hgoes := h (after resumedEarly) _ (after (resumedEarly ++ [.run 4 .plain] ++ armedLate))
    (.run 4 .plain) "p2" 1 1 (reach_after (by decide +kernel) (by decide +kernel))
    (by decide +kernel) (by decide +kernel) (step_after (by decide +kernel)) (by decide +kernel)
    (by decide +kernel) (reach_after_append (by decide +kernel) (by decide +kernel))
    (by decide +kernel)
  exact absurd hgoes.1 (by decide +kernel)

end VoiceHub.Sfu.Room
