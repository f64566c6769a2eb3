import Mathlib

/-!
Messages about the entries of a table that reach a reader late.

Messages are numbered in the order they are made, and each says something of some of the keys.
As long as the last pending message about a key says how the key is by now, and a key that no
pending message is about is shown as it is, the reader is shown every key as it is once nothing
is pending. How a key is may be left open: then anything may be said of it, and shown.
-/

namespace VoiceHub.Lib

variable {M K W : Type*}

structure Post (M : Type*) where
  seq : ℕ
  msg : M
  deriving DecidableEq

namespace Post

section Says

variable (tells : M → K → Option W)

/-- No message is about the key. -/
def Silent (pending : Multiset (Post M)) (k : K) : Prop := ∀ e ∈ pending, tells e.msg k = none

/-- No message about the key is later. -/
def Last (e : Post M) (k : K) (pending : Multiset (Post M)) : Prop :=
  ∀ u ∈ pending, (tells u.msg k).isSome → u.seq ≤ e.seq

/-- The message says of each key how it is. -/
def Right (m : M) (now : K → Option W) : Prop := ∀ k, ∀ w ∈ tells m k, ∀ w' ∈ now k, w = w'

/-- The last message about a key is right by now. -/
def Settled (pending : Multiset (Post M)) (now : K → Option W) : Prop :=
  ∀ e ∈ pending, ∀ k, ∀ w ∈ tells e.msg k, e.Last tells k pending → ∀ w' ∈ now k, w = w'

/-- Where the message is the last one about a key, the last of the others says the same. -/
def InOrder (e : Post M) (rest : Multiset (Post M)) : Prop :=
  ∀ k, ∀ w ∈ tells e.msg k, e.Last tells k rest →
    ∀ u ∈ rest, ∀ w' ∈ tells u.msg k, u.Last tells k rest → w' = w

/-- What is pending leads from what is shown to how things are now. -/
structure Leads (pending : Multiset (Post M)) (now : K → Option W) (shown : K → W → Prop) :
    Prop where
  settled : Settled tells pending now
  rest : ∀ k, Silent tells pending k → ∀ w ∈ now k, shown k w

end Says

variable {tells tells' : M → K → Option W} {pending new : Multiset (Post M)}
  {now now' : K → Option W} {shown shown' : K → W → Prop} {e : Post M} {k : K}

lemma silent_cons :
    Silent tells (e ::ₘ pending) k ↔ tells e.msg k = none ∧ Silent tells pending k :=
  Multiset.forall_mem_cons

lemma silent_add : Silent tells (new + pending) k ↔ Silent tells new k ∧ Silent tells pending k := by
  constructor
  · exact fun h => ⟨fun e he => h e (Multiset.mem_add.mpr (.inl he)),
      fun e he => h e (Multiset.mem_add.mpr (.inr he))⟩
  · rintro ⟨hnew, hpending⟩ e he
    exact (Multiset.mem_add.mp he).elim (hnew e) (hpending e)

lemma last_cons : e.Last tells k (e ::ₘ pending) ↔ e.Last tells k pending := by
  constructor
  · exact fun h u hu => h u (Multiset.mem_cons_of_mem hu)
  · intro h u hu hk
    rcases Multiset.mem_cons.mp hu with rfl | hu
    · exact le_rfl
    · exact h u hu hk

lemma last_of_silent (h : Silent tells pending k) : e.Last tells k pending := by
  intro u hu hsome
  rw [h u hu] at hsome
  cases hsome

/-- A message that is sent before everything later and after everything else. -/
lemma inOrder_of_lt (h : ∀ u ∈ pending, e.seq < u.seq) : e.InOrder tells pending := by
  intro k w hw hlast u hu w' hw' _
  exact absurd (hlast u hu (Option.isSome_iff_exists.mpr ⟨w', hw'⟩)) (not_le.mpr (h u hu))

lemma Settled.drop (h : Settled tells (e ::ₘ pending) now) (hin : e.InOrder tells pending) :
    Settled tells pending now := by
  intro u hu k w hw hlast
  by_cases hbefore : (tells e.msg k).isSome ∧ u.seq < e.seq
  · -- then `e` was the last one
    obtain ⟨w₀, hw₀⟩ := Option.isSome_iff_exists.mp hbefore.1
    have he : e.Last tells k pending := fun u' hu' hk => (hlast u' hu' hk).trans hbefore.2.le
    rw [hin k w₀ hw₀ he u hu w hw hlast]
    exact h e (Multiset.mem_cons_self _ _) k w₀ hw₀ (last_cons.mpr he)
  · refine h u (Multiset.mem_cons_of_mem hu) k w hw fun u' hu' hk => ?_
    rcases Multiset.mem_cons.mp hu' with rfl | hu'
    · exact not_lt.mp fun hlt => hbefore ⟨hk, hlt⟩
    · exact hlast u' hu' hk

lemma settled_add (hnew : ∀ e ∈ new, Right tells e.msg now)
    (hold : ∀ e ∈ pending, ∀ k, Silent tells new k → ∀ w ∈ tells e.msg k,
      e.Last tells k pending → ∀ w' ∈ now k, w = w')
    (hlater : ∀ u ∈ pending, ∀ e ∈ new, u.seq < e.seq) : Settled tells (new + pending) now := by
  intro e he k w hw hlast
  rcases Multiset.mem_add.mp he with he | he
  · exact hnew e he k w hw
  · have hsilent : Silent tells new k := by
      intro u hu
      by_contra hsome
      have hle := hlast u (Multiset.mem_add.mpr (.inl hu)) (Option.isSome_iff_ne_none.mpr hsome)
      exact absurd hle (not_le.mpr (hlater e he u hu))
    exact hold e he k hsilent w hw fun u hu => hlast u (Multiset.mem_add.mpr (.inr hu))

namespace Leads

lemma trans (h : Leads tells pending now shown) (hnew : ∀ e ∈ new, Right tells' e.msg now')
    (hrest : ∀ k, Silent tells' new k → (∀ m, tells m k = tells' m k) ∧ ∀ w ∈ now' k, w ∈ now k)
    (hlater : ∀ u ∈ pending, ∀ e ∈ new, u.seq < e.seq) :
    Leads tells' (new + pending) now' shown where
  settled := by
    refine settled_add hnew (fun e he k hk w hw hlast w' hw' => ?_) hlater
    obtain ⟨htells, hnow⟩ := hrest k hk
    refine h.settled e he k w (by rw [htells]; exact hw) (fun u hu hsome => ?_) w' (hnow w' hw')
    exact hlast u hu (by rw [← htells]; exact hsome)
  rest k hk w hw := by
    obtain ⟨hsilent, hold⟩ := silent_add.mp hk
    obtain ⟨htells, hnow⟩ := hrest k hsilent
    exact h.rest k (fun e he => by rw [htells]; exact hold e he) w (hnow w hw)

lemma reset (hnew : ∀ e ∈ new, Right tells e.msg now) (hall : ∀ k, ¬ Silent tells new k)
    (hlater : ∀ u ∈ pending, ∀ e ∈ new, u.seq < e.seq) :
    Leads tells (new + pending) now shown where
  settled := settled_add hnew (fun _ _ k hk => absurd hk (hall k)) hlater
  rest k hk := absurd (silent_add.mp hk).1 (hall k)

lemma arrive (h : Leads tells (e ::ₘ pending) now shown) (hin : e.InOrder tells pending)
    (htells : ∀ k, ∀ w ∈ tells e.msg k, w ∈ now k → shown' k w)
    (hframe : ∀ k, tells e.msg k = none → ∀ w ∈ now k, shown k w → shown' k w) :
    Leads tells pending now shown' where
  settled := h.settled.drop hin
  rest k hk w hnow := by
    cases hw : tells e.msg k with
    | none => exact hframe k hw w hnow (h.rest k (silent_cons.mpr ⟨hw, hk⟩) w hnow)
    | some w' =>
      have hlast : e.Last tells k (e ::ₘ pending) := last_cons.mpr (last_of_silent hk)
      obtain rfl := h.settled e (Multiset.mem_cons_self _ _) k w' hw hlast w hnow
      exact htells k w' hw hnow

lemma done (h : Leads tells 0 now shown) (k : K) : ∀ w ∈ now k, shown k w :=
  h.rest k fun _ he => absurd he (Multiset.notMem_zero _)

end Leads

end Post

end VoiceHub.Lib
