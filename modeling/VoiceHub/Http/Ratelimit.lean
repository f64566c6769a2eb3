import Mathlib
import VoiceHub.Lib.HashMap
import VoiceHub.Lib.Machine
import VoiceHub.Lib.Window

/-!
The token buckets that throttle requests, one for every client.

A call reads the clock before it takes the lock, so calls need not take effect in the order of
their times. One that comes late sets its bucket's time back, and what was refilled since then
is refilled once more.
-/

namespace VoiceHub.Http.Ratelimit

open VoiceHub.Lib VoiceHub.Lib.Window

abbrev Instant := ℚ

structure Config where
  /-- Tokens per second. -/
  rate : ℚ
  burst : ℚ
  ttl : ℚ
  maxKeys : ℕ
  rate_nonneg : 0 ≤ rate
  burst_nonneg : 0 ≤ burst

structure Bucket where
  tokens : ℚ
  last : Instant

abbrev Buckets := HashMap String Bucket

/-- `now.saturating_duration_since(earlier)`. -/
def durationSince (now earlier : Instant) : ℚ := max (now - earlier) 0

/-- Drops every bucket idle past `ttl`, or else the oldest one. -/
def evict (ord : Order) (m : Buckets) (ttl : ℚ) (now : Instant) : Buckets :=
  let kept := HashMap.retain (fun _ b => durationSince now b.last ≤ ttl) m
  if kept.len < m.len then kept
  else
    match (ord.list kept.entries).argmin fun x => x.2.last with
    | some oldest => AList.erase oldest.1 kept
    | none => kept

section Allow

variable (cfg : Config)

/-- When there is no token, how long until there is one. -/
def Bucket.take (b : Bucket) (now : Instant) : Bucket × Except ℚ Unit :=
  let tokens := min (b.tokens + durationSince now b.last * cfg.rate) cfg.burst
  if 1 ≤ tokens then (⟨tokens - 1, now⟩, .ok ())
  else (⟨tokens, now⟩, .error (if cfg.rate ≤ 0 then 0 else (1 - tokens) / cfg.rate))

/-- The buckets once there is room for `key`. -/
def makeRoom (ord : Order) (m : Buckets) (key : String) (now : Instant) : Buckets :=
  if (m.lookup key).isNone ∧ cfg.maxKeys ≤ m.len then evict ord m cfg.ttl now else m

def allowAt (ord : Order) (m : Buckets) (key : String) (now : Instant) :
    Buckets × Except ℚ Unit :=
  let m := makeRoom cfg ord m key now
  let b := (m.lookup key).getD ⟨cfg.burst, now⟩
  let (b, allowed) := b.take cfg now
  (AList.insert key b m, allowed)

end Allow

/-- The limiter, with the calls it has admitted. -/
structure Limiter where
  buckets : Buckets
  admitted : List (String × Instant)

def Limiter.new : Limiter := ⟨∅, []⟩

structure Call where
  key : String
  now : Instant
  ord : Order

def Limiter.step (cfg : Config) (l : Limiter) (call : Call) : Option Limiter :=
  match allowAt cfg call.ord l.buckets call.key call.now with
  | (m, .ok ()) => some ⟨m, l.admitted ++ [(call.key, call.now)]⟩
  | (m, .error _) => some ⟨m, l.admitted⟩

/-- The times of the admitted calls on a key. -/
def Limiter.times (l : Limiter) (key : String) : List Instant :=
  (l.admitted.filter fun x => x.1 = key).map Prod.snd

/-- The call evicts no bucket of `key`. -/
def Keeps (cfg : Config) (key : String) (l : Limiter) (call : Call) : Prop :=
  (l.buckets.lookup key).isSome →
    ((makeRoom cfg call.ord l.buckets call.key call.now).lookup key).isSome

/-- A call on `key` has a time not before that of the last one. -/
def Forward (key : String) (l : Limiter) (call : Call) : Prop :=
  call.key = key → ∀ b ∈ l.buckets.lookup key, b.last ≤ call.now

instance (cfg : Config) (key : String) (l : Limiter) (call : Call) :
    Decidable (Keeps cfg key l call) := inferInstanceAs (Decidable (_ → _))

instance (key : String) (l : Limiter) (call : Call) : Decidable (Forward key l call) :=
  inferInstanceAs (Decidable (_ → _))

/-! ### What a bucket has given out -/

/-- Since any moment no more was given out than the burst and the refill, less what is left. -/
structure Metered (cfg : Config) (ts : List Instant) (b : Bucket) : Prop where
  nonneg : 0 ≤ b.tokens
  le_burst : b.tokens ≤ cfg.burst
  past : ∀ t ∈ ts, t ≤ b.last
  given : ∀ a ≤ b.last, within ts a b.last + b.tokens ≤ cfg.burst + cfg.rate * (b.last - a)
  bound : ∀ a c, a ≤ c → within ts a c ≤ cfg.burst + cfg.rate * (c - a)

variable {cfg : Config} {ts : List Instant} {b : Bucket} {now : Instant} {key : String}
  {l l' : Limiter} {call : Call} {ord : Order}

lemma refill_nonneg (cfg : Config) {a c : ℚ} (h : a ≤ c) : 0 ≤ cfg.rate * (c - a) :=
  mul_nonneg cfg.rate_nonneg (sub_nonneg.mpr h)

lemma Metered.fresh (now : Instant) : Metered cfg [] ⟨cfg.burst, now⟩ where
  nonneg := cfg.burst_nonneg
  le_burst := le_rfl
  past := by simp
  given a ha := by
    have := refill_nonneg cfg ha
    simpa using this
  bound a c hac := by
    have := refill_nonneg cfg hac
    have := cfg.burst_nonneg
    simp only [within_nil, Nat.cast_zero]
    linarith

lemma Metered.refill (h : Metered cfg ts b) (hnow : b.last ≤ now) :
    Metered cfg ts
      ⟨min (b.tokens + durationSince now b.last * cfg.rate) cfg.burst, now⟩ where
  nonneg := by
    have hd : 0 ≤ durationSince now b.last := le_max_right _ _
    exact le_min (add_nonneg h.nonneg (mul_nonneg hd cfg.rate_nonneg)) cfg.burst_nonneg
  le_burst := min_le_right _ _
  past t ht := (h.past t ht).trans hnow
  given a ha := by
    simp only
    rcases le_or_gt a b.last with hab | hab
    · have hsince : durationSince now b.last = now - b.last :=
        max_eq_left (sub_nonneg.mpr hnow)
      have hleft : min (b.tokens + durationSince now b.last * cfg.rate) cfg.burst ≤
          b.tokens + (now - b.last) * cfg.rate := hsince ▸ min_le_left _ _
      have hgiven := h.given a hab
      rw [within_of_le h.past hnow]
      linarith
    · -- nothing was given out since
      rw [within_eq_zero fun t ht => (h.past t ht).trans_lt hab]
      have := refill_nonneg cfg ha
      have := min_le_right (b.tokens + durationSince now b.last * cfg.rate) cfg.burst
      push_cast
      linarith
  bound := h.bound

lemma Metered.spend {tokens : ℚ} (h : Metered cfg ts ⟨tokens, now⟩) (h1 : 1 ≤ tokens) :
    Metered cfg (ts ++ [now]) ⟨tokens - 1, now⟩ where
  nonneg := sub_nonneg.mpr h1
  le_burst := (sub_le_self _ zero_le_one).trans h.le_burst
  past t ht := by
    rcases List.mem_append.mp ht with ht | ht
    · exact h.past t ht
    · exact (List.mem_singleton.mp ht).le
  given a ha := by
    have hgiven := h.given a ha
    simp only at ha hgiven ⊢
    rw [within_append_singleton, if_pos ⟨ha, le_rfl⟩]
    push_cast
    linarith
  bound a c hac := by
    rw [within_append_singleton]
    split_ifs with hin
    · have hgiven := h.given a hin.1
      have hrefill := refill_nonneg cfg hin.2
      have hpast : within ts a c = within ts a now := within_of_le h.past hin.2
      simp only at hgiven
      rw [hpast]
      push_cast
      linarith
    · simpa using h.bound a c hac

/-! ### Runs -/

lemma lookup_makeRoom {b : Bucket} {m : Buckets} {k : String}
    (h : (makeRoom cfg ord m k now).lookup key = some b) : m.lookup key = some b := by
  have hretain (p : String → Bucket → Bool) (h : (HashMap.retain p m).lookup key = some b) :
      m.lookup key = some b := by
    rw [HashMap.lookup_retain] at h
    exact (Option.filter_eq_some_iff.mp h).1
  unfold makeRoom at h
  split at h
  · simp only [evict] at h
    split at h
    · exact hretain _ h
    · split at h
      · rw [HashMap.lookup_erase] at h
        split_ifs at h
        exact hretain _ h
      · exact hretain _ h
  · exact h

lemma Keeps.lookup_eq (h : Keeps cfg key l call) :
    (makeRoom cfg call.ord l.buckets call.key call.now).lookup key = l.buckets.lookup key := by
  cases hroom : (makeRoom cfg call.ord l.buckets call.key call.now).lookup key with
  | some b => exact (lookup_makeRoom hroom).symm
  | none =>
    have hnone : ¬ (l.buckets.lookup key).isSome := fun hs => by
      have := h hs
      rw [hroom] at this
      cases this
    exact (Option.not_isSome_iff_eq_none.mp hnone).symm

lemma take_cases (b : Bucket) (now : Instant) :
    ∃ tokens, tokens = min (b.tokens + durationSince now b.last * cfg.rate) cfg.burst ∧
      ((1 ≤ tokens ∧ b.take cfg now = (⟨tokens - 1, now⟩, .ok ())) ∨
        ∃ wait, b.take cfg now = (⟨tokens, now⟩, .error wait)) := by
  refine ⟨_, rfl, ?_⟩
  by_cases h : 1 ≤ min (b.tokens + durationSince now b.last * cfg.rate) cfg.burst
  · exact .inl ⟨h, if_pos h⟩
  · exact .inr ⟨_, if_neg h⟩

lemma times_append (l : Limiter) (m : Buckets) (k : String) :
    (Limiter.mk m (l.admitted ++ [(k, now)])).times key =
      if k = key then l.times key ++ [now] else l.times key := by
  simp only [Limiter.times, List.filter_append, List.map_append]
  split_ifs with hk <;> simp [hk]

/-- What a call does to a bucket and its admitted calls. -/
lemma step_cases (h : Limiter.step cfg l call = some l') (hk : Keeps cfg key l call) :
    (call.key ≠ key ∧ l'.buckets.lookup key = l.buckets.lookup key ∧ l'.times key = l.times key) ∨
    (call.key = key ∧ ∃ b tokens,
      b = (l.buckets.lookup key).getD ⟨cfg.burst, call.now⟩ ∧
      tokens = min (b.tokens + durationSince call.now b.last * cfg.rate) cfg.burst ∧
      ((1 ≤ tokens ∧ l'.buckets.lookup key = some ⟨tokens - 1, call.now⟩ ∧
          l'.times key = l.times key ++ [call.now]) ∨
        (l'.buckets.lookup key = some ⟨tokens, call.now⟩ ∧ l'.times key = l.times key))) := by
  have hlookup := hk.lookup_eq
  obtain ⟨tokens, htokens, htake⟩ := @take_cases cfg
    (((makeRoom cfg call.ord l.buckets call.key call.now).lookup call.key).getD
      ⟨cfg.burst, call.now⟩) call.now
  simp only [Limiter.step, allowAt] at h
  by_cases hkey : call.key = key
  · right
    subst hkey
    rw [hlookup] at htokens htake h
    refine ⟨rfl, _, tokens, rfl, htokens, ?_⟩
    rcases htake with ⟨h1, htake⟩ | ⟨wait, htake⟩ <;> rw [htake] at h <;>
      obtain rfl := Option.some.inj h
    · refine .inl ⟨h1, ?_, ?_⟩
      · rw [HashMap.lookup_insert, if_pos rfl]
      · rw [times_append, if_pos rfl]
    · exact .inr ⟨by rw [HashMap.lookup_insert, if_pos rfl], rfl⟩
  · left
    rcases htake with ⟨-, htake⟩ | ⟨wait, htake⟩ <;> rw [htake] at h <;>
      obtain rfl := Option.some.inj h
    · exact ⟨hkey, by rw [HashMap.lookup_insert, if_neg (Ne.symm hkey), hlookup],
        by rw [times_append, if_neg hkey]⟩
    · exact ⟨hkey, by rw [HashMap.lookup_insert, if_neg (Ne.symm hkey), hlookup], rfl⟩

/-- What a key's bucket has given out, if it has one. -/
def Fair (cfg : Config) (key : String) (l : Limiter) : Prop :=
  (∀ b, l.buckets.lookup key = some b → Metered cfg (l.times key) b) ∧
    (l.buckets.lookup key = none → l.times key = [])

lemma Fair.step (h : Fair cfg key l) (hk : Keeps cfg key l call) (hf : Forward key l call)
    (hs : Limiter.step cfg l call = some l') : Fair cfg key l' := by
  rcases step_cases hs hk with ⟨-, hlookup, htimes⟩ | ⟨hkey, b, tokens, rfl, htokens, hcase⟩
  · unfold Fair
    rw [hlookup, htimes]
    exact h
  · have hrefill : Metered cfg (l.times key) ⟨tokens, call.now⟩ := by
      rw [htokens]
      cases hb : l.buckets.lookup key with
      | some b => exact (h.1 b hb).refill (hf hkey b hb)
      | none =>
        rw [h.2 hb]
        exact (Metered.fresh _).refill le_rfl
    rcases hcase with ⟨h1, hlookup, htimes⟩ | ⟨hlookup, htimes⟩
    · refine ⟨fun b hb => ?_, fun hnone => ?_⟩
      · rw [hlookup] at hb
        rw [htimes, ← Option.some.inj hb]
        exact hrefill.spend h1
      · rw [hlookup] at hnone
        cases hnone
    · refine ⟨fun b hb => ?_, fun hnone => ?_⟩
      · rw [hlookup] at hb
        rw [htimes, ← Option.some.inj hb]
        exact hrefill
      · rw [hlookup] at hnone
        cases hnone

/-- **The token bucket's bound**, for a key whose calls take effect in the order of their
times. -/
theorem admitted_le (key : String) (h : Machine.Reach (Limiter.step cfg)
    (fun l call => Keeps cfg key l call ∧ Forward key l call) .new l) {a c : Instant}
    (hac : a ≤ c) : within (l.times key) a c ≤ cfg.burst + cfg.rate * (c - a) := by
  have hfair : Fair cfg key l :=
    h.invariant (I := Fair cfg key) ⟨fun b hb => (by cases hb), fun _ => rfl⟩
      fun _ _ _ hI hg hs => hI.step hg.1 hg.2 hs
  cases hb : l.buckets.lookup key with
  | some b => exact (hfair.1 b hb).bound a c hac
  | none =>
    rw [hfair.2 hb]
    exact (Metered.fresh a).bound a c hac

/-- One token, and one more every second. -/
def slow : Config := ⟨1, 1, 3600, 65536, by decide, by decide⟩

/-- Calls on one key, at these times. -/
def calls (nows : List Instant) : List Call := nows.map fun now => ⟨"1.2.3.4", now, .plain⟩

theorem admitted_le_slow : within
    (((Machine.run (Limiter.step slow) .new (calls [1, 1, 3 / 2, 2])).getD .new).times "1.2.3.4")
    1 2 ≤ slow.burst + slow.rate * (2 - 1) :=
  admitted_le "1.2.3.4" (Machine.Reach.of_isSome (by decide +kernel) (by decide +kernel))
    (by decide)

/-- The second call read the clock first. -/
theorem admitted_late : ¬ ∀ (cfg : Config) (key : String) (l : Limiter),
    Machine.Reach (Limiter.step cfg) (Keeps cfg key) .new l → ∀ a c : Instant, a ≤ c →
      within (l.times key) a c ≤ cfg.burst + cfg.rate * (c - a) := by
  intro h
  have hbound := h slow "1.2.3.4"
    ((Machine.run (Limiter.step slow) .new (calls [1, 0, 1])).getD .new)
    (Machine.Reach.of_isSome (by decide +kernel) (by decide +kernel)) 1 1 le_rfl
  exact absurd hbound (by decide +kernel)

end VoiceHub.Http.Ratelimit
