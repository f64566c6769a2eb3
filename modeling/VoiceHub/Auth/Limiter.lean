import Mathlib
import VoiceHub.Lib.HashMap
import VoiceHub.Lib.Machine
import VoiceHub.Lib.Window

/-!
The limit on wrong passwords.

An address has one counter and the time of the first failure it counts; when that is a window
ago the counter goes, with all it counted. An attempt looks at the counter first and adds to
it when its password has turned out wrong, so several may have looked and not yet added.
-/

namespace VoiceHub.Auth.Limiter

open VoiceHub.Lib VoiceHub.Lib.Window

/-- Times are in nanoseconds. -/
structure AuthLimiter where
  max : UInt32
  window : ℕ

structure Attempt where
  count : UInt32
  first : ℕ

structure Inner where
  attempts : HashMap String Attempt
  lastSweep : Option ℕ

section Source

variable (l : AuthLimiter)

def blockedAt (inner : Inner) (ip : String) (now : ℕ) : Inner × Bool :=
  match inner.attempts.lookup ip with
  | none => (inner, false)
  | some a =>
    if l.window < now - a.first then ({ inner with attempts := AList.erase ip inner.attempts }, false)
    else (inner, decide (l.max ≤ a.count))

/-- `inner.last_sweep.is_none_or(..)`. -/
def sweeps (inner : Inner) (now : ℕ) : Bool :=
  inner.lastSweep.all fun t => l.window ≤ now - t

/-- Evicts stale entries at most once per window. -/
def sweep (inner : Inner) (now : ℕ) : Inner :=
  if sweeps l inner now then
    ⟨HashMap.retain (fun _ a => now - a.first ≤ l.window) inner.attempts, some now⟩
  else inner

def failAt (inner : Inner) (ip : String) (now : ℕ) : Inner :=
  let inner := sweep l inner now
  match inner.attempts.lookup ip with
  | some a =>
    if now - a.first ≤ l.window then
      { inner with attempts := AList.insert ip { a with count := a.count + 1 } inner.attempts }
    else { inner with attempts := AList.insert ip ⟨1, now⟩ inner.attempts }
  | none => { inner with attempts := AList.insert ip ⟨1, now⟩ inner.attempts }

def success (inner : Inner) (ip : String) : Inner :=
  { inner with attempts := AList.erase ip inner.attempts }

end Source

/-! ### The login handler -/

/-- An attempt that was not blocked. -/
structure Login where
  ip : String
  passedAt : ℕ
  wrong : Bool

structure Server where
  inner : Inner
  /-- past the check, and not yet recorded -/
  pending : List Login
  /-- recorded as failures -/
  failed : List Login
  successes : List (String × ℕ)
  clock : ℕ

def Server.new : Server := ⟨⟨∅, none⟩, [], [], [], 0⟩

inductive Label
  | login (ip : String) (wrong : Bool) (now : ℕ)
  /-- the password of a pending attempt has been checked -/
  | verified (i : ℕ) (now : ℕ)

def Server.step (l : AuthLimiter) (s : Server) : Label → Option Server
  | .login ip wrong now =>
    if now < s.clock then none
    else
      match blockedAt l s.inner ip now with
      | (inner, true) => some { s with inner := inner, clock := now }
      | (inner, false) =>
        some { s with inner := inner, clock := now, pending := s.pending ++ [⟨ip, now, wrong⟩] }
  | .verified i now =>
    if now < s.clock then none
    else
      match s.pending[i]? with
      | none => none
      | some p =>
        let s := { s with pending := s.pending.eraseIdx i, clock := now }
        if p.wrong then
          some { s with inner := failAt l s.inner p.ip now, failed := s.failed ++ [p] }
        else
          some { s with
            inner := success s.inner p.ip
            successes := s.successes ++ [(p.ip, now)] }

namespace Server

/-- When the failing attempts of an address passed the check. -/
def failing (s : Server) (ip : String) : List ℕ :=
  ((s.failed ++ s.pending).filter fun p => p.ip = ip ∧ p.wrong).map Login.passedAt

/-- How many of an address' attempts will still fail. -/
def waiting (s : Server) (ip : String) : ℕ := s.pending.countP fun p => p.ip = ip ∧ p.wrong

end Server

/-- What is counted against an address. -/
def Inner.count (inner : Inner) (ip : String) : ℕ :=
  ((inner.attempts.lookup ip).map fun a => a.count.toNat).getD 0

/-- Every recorded failure of the address passed the check more than a window ago. -/
def Stale (l : AuthLimiter) (s : Server) (ip : String) (now : ℕ) : Prop :=
  ∀ p ∈ s.failed, p.ip = ip → p.passedAt + l.window < now

/-- When the counter of the address `k` goes, it counts nothing of the last window any more, and an
attempt of `k` with a wrong password that is let through does not, with those on their way, go
beyond the limit. -/
def Orderly (l : AuthLimiter) (k : String) (s : Server) : Label → Prop
  | .login ip wrong now => ip = k →
    (∀ a ∈ s.inner.attempts.lookup ip, l.window < now - a.first → Stale l s ip now) ∧
      ((blockedAt l s.inner ip now).2 = false → wrong →
        (blockedAt l s.inner ip now).1.count ip + s.waiting ip < l.max.toNat)
  | .verified i now =>
    ∀ p ∈ s.pending[i]?, p.wrong → ∀ a ∈ s.inner.attempts.lookup k, l.window < now - a.first →
      k = p.ip ∨ sweeps l s.inner now → Stale l s k now

instance (l : AuthLimiter) (s : Server) (ip : String) (now : ℕ) :
    Decidable (Stale l s ip now) := inferInstanceAs (Decidable (∀ _ ∈ _, _))

instance (l : AuthLimiter) (k : String) (s : Server) : ∀ lab, Decidable (Orderly l k s lab)
  | .login _ _ _ => inferInstanceAs (Decidable (_ → _ ∧ _))
  | .verified _ _ => inferInstanceAs (Decidable (∀ _ ∈ _, _))

/-! ### What the operations do to the counters -/

variable {l : AuthLimiter} {inner : Inner} {s s' : Server} {ip k : String} {now now' : ℕ}
  {wrong : Bool} {i : ℕ} {p : Login}

/-- The address has a counter whose window is over. -/
def Expired (l : AuthLimiter) (inner : Inner) (ip : String) (now : ℕ) : Prop :=
  ∃ a, inner.attempts.lookup ip = some a ∧ l.window < now - a.first

lemma count_of_lookup {inner' : Inner} (h : inner'.attempts.lookup k = inner.attempts.lookup k) :
    inner'.count k = inner.count k := by
  rw [Inner.count, Inner.count, h]

lemma count_none (h : inner.attempts.lookup k = none) : inner.count k = 0 := by
  rw [Inner.count, h]
  rfl

lemma count_some {a : Attempt} (h : inner.attempts.lookup k = some a) :
    inner.count k = a.count.toNat := by
  rw [Inner.count, h]
  rfl

lemma count_blockedAt (l : AuthLimiter) (inner : Inner) (ip k : String) (now : ℕ) :
    (blockedAt l inner ip now).1.count k = inner.count k ∨
      (k = ip ∧ Expired l inner ip now ∧ (blockedAt l inner ip now).1.count k = 0) := by
  unfold blockedAt
  split
  · exact .inl rfl
  · next a ha =>
    split_ifs with hexp
    · by_cases hk : k = ip
      · refine .inr ⟨hk, ⟨a, ha, hexp⟩, count_none ?_⟩
        rw [HashMap.lookup_erase, if_pos hk]
      · refine .inl (count_of_lookup ?_)
        rw [HashMap.lookup_erase, if_neg hk]
    · exact .inl rfl

lemma lookup_sweep (l : AuthLimiter) (inner : Inner) (now : ℕ) (k : String) :
    (sweep l inner now).attempts.lookup k = inner.attempts.lookup k ∨
      (sweeps l inner now = true ∧ Expired l inner k now ∧
        (sweep l inner now).attempts.lookup k = none) := by
  unfold sweep
  split_ifs with hs
  · rw [HashMap.lookup_retain]
    cases ha : inner.attempts.lookup k with
    | none => exact .inl rfl
    | some a =>
      by_cases hlive : now - a.first ≤ l.window
      · exact .inl (by rw [Option.filter_some_pos (by simpa using hlive)])
      · exact .inr ⟨hs, ⟨a, ha, not_le.mp hlive⟩, Option.filter_some_neg (by simpa using hlive)⟩
  · exact .inl rfl

lemma count_failAt_of_ne (hk : k ≠ ip) :
    (failAt l inner ip now).count k = inner.count k ∨
      (sweeps l inner now = true ∧ Expired l inner k now ∧
        (failAt l inner ip now).count k = 0) := by
  have hlookup : (failAt l inner ip now).attempts.lookup k =
      (sweep l inner now).attempts.lookup k := by
    simp only [failAt]
    split
    · split_ifs <;> rw [HashMap.lookup_insert, if_neg hk]
    · rw [HashMap.lookup_insert, if_neg hk]
  rcases lookup_sweep l inner now k with h | ⟨hs, hexp, h⟩
  · exact .inl (count_of_lookup (hlookup.trans h))
  · exact .inr ⟨hs, hexp, count_none (hlookup.trans h)⟩

lemma count_failAt_self :
    (∃ a, inner.attempts.lookup ip = some a ∧
      (failAt l inner ip now).count ip = (a.count + 1).toNat) ∨
    ((inner.attempts.lookup ip = none ∨ Expired l inner ip now) ∧
      (failAt l inner ip now).count ip = 1) := by
  have hone {m : HashMap String Attempt} {t : Option ℕ} :
      (Inner.mk (AList.insert ip ⟨1, now⟩ m) t).count ip = 1 := by
    rw [count_some (a := ⟨1, now⟩) (by rw [HashMap.lookup_insert, if_pos rfl])]
    rfl
  simp only [failAt]
  rcases lookup_sweep l inner now ip with h | ⟨-, hexp, h⟩
  · rw [h]
    split
    · next a ha =>
      split_ifs with hlive
      · refine .inl ⟨a, ha, ?_⟩
        rw [count_some (a := { a with count := a.count + 1 })
          (by rw [HashMap.lookup_insert, if_pos rfl])]
      · exact .inr ⟨.inr ⟨a, ha, not_le.mp hlive⟩, hone⟩
    · next ha => exact .inr ⟨.inl ha, hone⟩
  · rw [h]
    exact .inr ⟨.inr hexp, hone⟩

/-! ### The bound -/

/-- The failures of the last window since the address last logged in. -/
def recent (l : AuthLimiter) (s : Server) (ip : String) (now : ℕ) : ℕ :=
  s.failed.countP fun p => p.ip = ip ∧ now ≤ p.passedAt + l.window ∧
    ∀ x ∈ s.successes, x.1 = ip → x.2 < p.passedAt

lemma recent_mono (h : now ≤ now') : recent l s ip now' ≤ recent l s ip now := by
  refine List.countP_mono_left fun p _ hp => ?_
  simp only [decide_eq_true_eq] at hp ⊢
  exact ⟨hp.1, h.trans hp.2.1, hp.2.2⟩

lemma recent_of_stale (h : Stale l s ip now) : recent l s ip now = 0 := by
  refine List.countP_eq_zero.mpr fun p hp => ?_
  simp only [decide_eq_true_eq, not_and]
  exact fun hip hnow => absurd (h p hp hip) (not_lt.mpr hnow)

/-- No window without a login of the address has more failing attempts than allowed. -/
def Windowed (l : AuthLimiter) (ip : String) (s : Server) : Prop :=
  ∀ start, (∀ x ∈ s.successes, x.1 = ip → ¬ (start ≤ x.2 ∧ x.2 ≤ start + l.window)) →
    within (s.failing ip) start (start + l.window) ≤ l.max.toNat

/-- What holds of one address as long as its own steps are in order. -/
structure Bounded (l : AuthLimiter) (ip : String) (s : Server) : Prop where
  passed : ∀ p ∈ s.failed ++ s.pending, p.passedAt ≤ s.clock
  logged : ∀ x ∈ s.successes, x.2 ≤ s.clock
  counted : recent l s ip s.clock ≤ s.inner.count ip
  room : s.inner.count ip + s.waiting ip ≤ l.max.toNat
  windowed : Windowed l ip s

/-- The failing attempts of a window up to now are recent, or on their way. -/
lemma within_failing_le {start : ℕ} (hb : Bounded l ip s) (hclock : s.clock ≤ now)
    (hnow : now ≤ start + l.window)
    (hs : ∀ x ∈ s.successes, x.1 = ip → ¬ (start ≤ x.2 ∧ x.2 ≤ start + l.window)) :
    within (s.failing ip) start (start + l.window) ≤ recent l s ip now + s.waiting ip := by
  rw [within, Server.failing, List.countP_map, List.countP_filter, List.countP_append]
  refine Nat.add_le_add (List.countP_mono_left fun p _ h => ?_)
    (List.countP_mono_left fun p _ h => ?_)
  · simp only [Function.comp_apply, Bool.and_eq_true, decide_eq_true_eq] at h ⊢
    obtain ⟨⟨hstart, -⟩, hip, -⟩ := h
    refine ⟨hip, by omega, fun x hx hxip => ?_⟩
    have hlog := hb.logged x hx
    have hout := hs x hx hxip
    omega
  · simp only [Function.comp_apply, Bool.and_eq_true, decide_eq_true_eq] at h ⊢
    exact h.2

lemma Bounded.login (hb : Bounded l k s) (hg : Orderly l k s (.login ip wrong now))
    (hs : s.step l (.login ip wrong now) = some s') : Bounded l k s' := by
  simp only [Server.step] at hs
  split_ifs at hs with hclock
  have hle : s.clock ≤ now := not_lt.mp hclock
  have hcount : recent l s k now ≤ (blockedAt l s.inner ip now).1.count k ∧
      (blockedAt l s.inner ip now).1.count k ≤ s.inner.count k := by
    have hrecent := (recent_mono hle).trans hb.counted
    rcases count_blockedAt l s.inner ip k now with h | ⟨rfl, ⟨a, ha, hexp⟩, h⟩
    · exact ⟨h ▸ hrecent, h.le⟩
    · rw [h, recent_of_stale ((hg rfl).1 a ha hexp)]
      exact ⟨le_rfl, Nat.zero_le _⟩
  have hpassed : ∀ p ∈ s.failed ++ s.pending, p.passedAt ≤ now :=
    fun p hp => (hb.passed p hp).trans hle
  split at hs
  · -- the attempt is turned away
    next inner hblock =>
    obtain rfl := Option.some.inj hs
    rw [hblock] at hcount
    exact ⟨hpassed, fun x hx => (hb.logged x hx).trans hle, hcount.1,
      (Nat.add_le_add_right hcount.2 _).trans hb.room, hb.windowed⟩
  · -- the attempt is let through
    next inner hblock =>
    obtain rfl := Option.some.inj hs
    have hroom (hk : ip = k) := (hg hk).2
    rw [hblock] at hcount hroom
    refine ⟨fun p hp => ?_, fun x hx => (hb.logged x hx).trans hle, hcount.1, ?_,
      fun start hno => ?_⟩
    · rw [← List.append_assoc] at hp
      rcases List.mem_append.mp hp with hp | hp
      · exact hpassed p hp
      · exact (congrArg Login.passedAt (List.mem_singleton.mp hp)).le
    · -- the attempt waits from now on
      have hbefore := (Nat.add_le_add_right hcount.2 _).trans hb.room
      simp only [Server.waiting, List.countP_append, List.countP_singleton, decide_eq_true_eq]
      split_ifs with hk
      · obtain ⟨rfl, hwrong⟩ := hk
        exact hroom rfl rfl hwrong
      · exact hbefore
    · have hfailing : Server.failing { s with
            inner := inner, clock := now, pending := s.pending ++ [⟨ip, now, wrong⟩] } k =
          if ip = k ∧ wrong = true then s.failing k ++ [now] else s.failing k := by
        simp only [Server.failing, ← List.append_assoc, List.filter_append, List.map_append]
        split_ifs with hk <;> simp [hk]
      rw [hfailing]
      split_ifs with hk
      · obtain ⟨rfl, hwrong⟩ := hk
        rw [within_append_singleton]
        split_ifs with hin
        · -- those before it in the window and those on their way are below the limit
          have hsum := within_failing_le hb hle hin.2 hno
          have hrecent := hcount.1
          have hlimit := hroom rfl rfl hwrong
          omega
        · exact hb.windowed start hno
      · exact hb.windowed start hno

lemma perm_pending (hp : s.pending[i]? = some p) :
    s.pending.Perm (p :: s.pending.eraseIdx i) := by
  obtain ⟨hi, rfl⟩ := List.getElem?_eq_some_iff.mp hp
  exact (List.getElem_cons_eraseIdx_perm hi).symm

lemma waiting_eq (hp : s.pending[i]? = some p) : s.waiting k =
    (s.pending.eraseIdx i).countP (fun q => q.ip = k ∧ q.wrong) +
      if p.ip = k ∧ p.wrong = true then 1 else 0 := by
  rw [Server.waiting, (perm_pending hp).countP_eq, List.countP_cons]
  simp only [decide_eq_true_eq]

lemma recent_fail : recent l { s with failed := s.failed ++ [p] } k now ≤
    recent l s k now + if p.ip = k then 1 else 0 := by
  simp only [recent, List.countP_append, List.countP_singleton, decide_eq_true_eq]
  refine Nat.add_le_add_left ?_ _
  split_ifs with h1 h2 h2
  · exact le_rfl
  · exact absurd h1.1 h2
  · exact Nat.zero_le _
  · exact le_rfl

/-- What a failure adds to the recent ones is counted, or the counter starts anew. -/
lemma Bounded.counted_fail (hb : Bounded l k s) (hg : Orderly l k s (.verified i now))
    (hp : s.pending[i]? = some p) (hwrong : p.wrong = true) (hle : s.clock ≤ now) :
    recent l { s with failed := s.failed ++ [p] } k now ≤ (failAt l s.inner p.ip now).count k := by
  have hstale (hexp : Expired l s.inner k now) (hk : k = p.ip ∨ sweeps l s.inner now = true) :
      Stale l s k now := by
    obtain ⟨a, ha, hlt⟩ := hexp
    exact hg p hp hwrong a ha hlt hk
  have hbefore : recent l s k now ≤ s.inner.count k := (recent_mono hle).trans hb.counted
  have hroom := hb.room
  refine recent_fail.trans ?_
  by_cases hk : p.ip = k
  · subst hk
    rw [if_pos rfl]
    have hw := waiting_eq (k := p.ip) hp
    rw [if_pos ⟨rfl, hwrong⟩] at hw
    rcases @count_failAt_self l s.inner p.ip now with ⟨a, ha, h⟩ | ⟨hnew, h⟩
    · -- there is room in the counter
      have hc := count_some ha
      have hlt : a.count.toNat + 1 < 2 ^ 32 := by
        have := l.max.toNat_lt
        omega
      have hadd : (a.count + 1).toNat = a.count.toNat + 1 := by
        rw [UInt32.toNat_add]
        exact Nat.mod_eq_of_lt hlt
      rw [h, hadd]
      omega
    · -- the counter starts anew, as nothing recent is left in it
      have hzero : recent l s p.ip now = 0 := by
        rcases hnew with hnone | hexp
        · rw [count_none hnone] at hbefore
          omega
        · exact recent_of_stale (hstale hexp (.inl rfl))
      rw [h, hzero]
  · -- the failure is another address's
    rw [if_neg hk, Nat.add_zero]
    rcases @count_failAt_of_ne l s.inner p.ip k now (Ne.symm hk) with h | ⟨hs, hexp, h⟩
    · rw [h]
      exact hbefore
    · rw [h, recent_of_stale (hstale hexp (.inr hs))]

lemma Bounded.room_fail (hb : Bounded l k s) (hp : s.pending[i]? = some p)
    (hwrong : p.wrong = true) : (failAt l s.inner p.ip now).count k +
      Server.waiting { s with pending := s.pending.eraseIdx i } k ≤ l.max.toNat := by
  have hroom := hb.room
  have hw := waiting_eq (k := k) hp
  simp only [Server.waiting] at hw hroom ⊢
  by_cases hk : p.ip = k
  · subst hk
    rw [if_pos ⟨rfl, hwrong⟩] at hw
    -- the attempt no longer waits, which makes up for the count
    rcases @count_failAt_self l s.inner p.ip now with ⟨a, ha, h⟩ | ⟨-, h⟩
    · have hc := count_some ha
      have hadd : (a.count + 1).toNat ≤ a.count.toNat + 1 := by
        rw [UInt32.toNat_add]
        exact Nat.mod_le _ _
      omega
    · omega
  · rw [if_neg fun h => hk h.1] at hw
    rcases @count_failAt_of_ne l s.inner p.ip k now (Ne.symm hk) with h | ⟨-, -, h⟩ <;> omega

lemma Bounded.fail (hb : Bounded l k s) (hg : Orderly l k s (.verified i now))
    (hp : s.pending[i]? = some p) (hwrong : p.wrong = true) (hle : s.clock ≤ now) :
    Bounded l k { s with
      inner := failAt l s.inner p.ip now
      pending := s.pending.eraseIdx i
      failed := s.failed ++ [p]
      clock := now } := by
  have hperm : (s.failed ++ [p] ++ s.pending.eraseIdx i).Perm (s.failed ++ s.pending) := by
    rw [List.append_assoc]
    exact (perm_pending hp).symm.append_left s.failed
  refine ⟨fun q hq => (hb.passed q (hperm.mem_iff.mp hq)).trans hle,
    fun x hx => (hb.logged x hx).trans hle, hb.counted_fail hg hp hwrong hle,
    hb.room_fail hp hwrong, fun start hno => ?_⟩
  have hsame : (Server.failing { s with
      inner := failAt l s.inner p.ip now
      pending := s.pending.eraseIdx i
      failed := s.failed ++ [p]
      clock := now } k).Perm (s.failing k) := (hperm.filter _).map _
  rw [within, hsame.countP_eq]
  exact hb.windowed start hno

lemma Bounded.succeed (hb : Bounded l k s) (hp : s.pending[i]? = some p) (hright : p.wrong = false)
    (hle : s.clock ≤ now) :
    Bounded l k { s with
      inner := success s.inner p.ip
      pending := s.pending.eraseIdx i
      successes := s.successes ++ [(p.ip, now)]
      clock := now } := by
  have hw := waiting_eq (k := k) hp
  simp only [hright, Bool.false_eq_true, and_false, if_false, Nat.add_zero] at hw
  have hcount : (k = p.ip ∧ (success s.inner p.ip).count k = 0) ∨
      (success s.inner p.ip).count k = s.inner.count k := by
    by_cases hk : k = p.ip
    · exact .inl ⟨hk, count_none (by rw [success, HashMap.lookup_erase, if_pos hk])⟩
    · exact .inr (count_of_lookup (by rw [success, HashMap.lookup_erase, if_neg hk]))
  refine ⟨fun q hq => ?_, fun x hx => ?_, ?_, ?_, fun start hno => ?_⟩
  · refine (hb.passed q ?_).trans hle
    rcases List.mem_append.mp hq with hq | hq
    · exact List.mem_append.mpr (.inl hq)
    · exact List.mem_append.mpr (.inr (List.eraseIdx_subset hq))
  · rcases List.mem_append.mp hx with hx | hx
    · exact (hb.logged x hx).trans hle
    · exact (congrArg Prod.snd (List.mem_singleton.mp hx)).le
  · rcases hcount with ⟨rfl, h⟩ | h
    · -- nothing recorded passed the check after now
      refine le_of_eq_of_le (List.countP_eq_zero.mpr fun q hq => ?_) (Nat.zero_le _)
      simp only [decide_eq_true_eq, not_and, not_forall]
      refine fun _ _ => ⟨(p.ip, now), by simp, rfl, not_lt.mpr ?_⟩
      exact (hb.passed q (List.mem_append.mpr (.inl hq))).trans hle
    · have hbefore : recent l s k now ≤ s.inner.count k := (recent_mono hle).trans hb.counted
      rw [h]
      refine le_trans (List.countP_mono_left fun q _ hq => ?_) hbefore
      simp only [decide_eq_true_eq] at hq ⊢
      exact ⟨hq.1, hq.2.1, fun x hx => hq.2.2 x (List.mem_append.mpr (.inl hx))⟩
  · have hroom := hb.room
    rw [hw] at hroom
    rcases hcount with ⟨-, h⟩ | h <;> rw [h]
    · exact (Nat.add_le_add_right (Nat.zero_le _) _).trans hroom
    · exact hroom
  · have hsub : (Server.failing { s with
        inner := success s.inner p.ip
        pending := s.pending.eraseIdx i
        successes := s.successes ++ [(p.ip, now)]
        clock := now } k).Sublist (s.failing k) :=
      (((List.eraseIdx_sublist ..).append_left s.failed).filter _).map _
    exact (hsub.countP_le).trans
      (hb.windowed start fun x hx => hno x (List.mem_append.mpr (.inl hx)))

lemma Bounded.step {lab : Label} (hb : Bounded l k s) (hg : Orderly l k s lab)
    (hs : s.step l lab = some s') : Bounded l k s' := by
  cases lab with
  | login ip wrong now => exact hb.login hg hs
  | verified i now =>
    simp only [Server.step] at hs
    split_ifs at hs with hclock
    have hle := not_lt.mp hclock
    split at hs
    · cases hs
    · next p hp =>
      split_ifs at hs with hwrong <;> obtain rfl := Option.some.inj hs
      · exact hb.fail hg hp hwrong hle
      · exact hb.succeed hp (Bool.not_eq_true _ ▸ hwrong) hle

/-- **The limit on wrong passwords**, in every run in which the counter of the address does not go
too early and no check of it overtakes the failures it should count. -/
theorem failing_le (ip : String) (h : Machine.Reach (Server.step l) (Orderly l ip) .new s)
    (start : ℕ) (hno : ∀ x ∈ s.successes, x.1 = ip → ¬ (start ≤ x.2 ∧ x.2 ≤ start + l.window)) :
    within (s.failing ip) start (start + l.window) ≤ l.max.toNat := by
  have hnew : Bounded l ip .new :=
    ⟨by simp [Server.new], by simp [Server.new], Nat.zero_le _, Nat.zero_le _,
      fun start _ => Nat.zero_le _⟩
  exact (h.invariant hnew fun _ _ _ hb hg hs => hb.step hg hs).windowed start hno

def two : AuthLimiter := ⟨2, 10⟩

/-- Wrong passwords from one address, each checked at once. -/
def guesses (times : List ℕ) : List Label :=
  times.flatMap fun t => [.login "1.2.3.4" true t, .verified 0 t]

theorem failing_le_two : within
    (((Machine.run (Server.step two) .new (guesses [0, 5] ++ guesses [16, 17])).getD .new).failing
      "1.2.3.4") 7 17 ≤ 2 :=
  failing_le (l := two) "1.2.3.4"
    (Machine.Reach.of_isSome (by decide +kernel) (by decide +kernel)) 7 (by decide +kernel)

/-- The counter goes with the failure it began with, one moment after the second. -/
theorem not_failing_le : ¬ ∀ (l : AuthLimiter) (s : Server),
    Machine.Reach (Server.step l) Machine.free .new s → ∀ (ip : String) (start : ℕ),
      (∀ x ∈ s.successes, x.1 = ip → ¬ (start ≤ x.2 ∧ x.2 ≤ start + l.window)) →
      within (s.failing ip) start (start + l.window) ≤ l.max.toNat := by
  intro h
  have hbound := h two
    ((Machine.run (Server.step two) .new (guesses [0, 10, 11, 11])).getD .new)
    (Machine.Reach.of_isSome (Machine.meets_free _ _) (by decide +kernel)) "1.2.3.4" 1
    (by decide +kernel)
  exact absurd hbound (by decide +kernel)

end VoiceHub.Auth.Limiter
