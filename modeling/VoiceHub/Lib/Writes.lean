import Mathlib

/-!
Writes to the entries of a table that reach a reader late.

Writes are numbered in the order they are made. As long as the last pending write to a key
has the value the key has by now, and a key without one is seen as it is, the reader sees the
table as it is once nothing is pending.
-/

namespace VoiceHub.Lib

variable {K V : Type*}

structure Write (K V : Type*) where
  seq : ℕ
  key : K
  value : V
  deriving DecidableEq

/-- No pending write to the same key is later. -/
def Write.Last (w : Write K V) (pending : Multiset (Write K V)) : Prop :=
  ∀ w' ∈ pending, w'.key = w.key → w'.seq ≤ w.seq

/-- The last pending write to a key has its value by now. -/
def Settled (pending : Multiset (Write K V)) (now : K → V) : Prop :=
  ∀ w ∈ pending, w.Last pending → w.value = now w.key

/-- What is pending leads from what is seen to how things are now. -/
structure Leads (pending : Multiset (Write K V)) (seen now : K → V) : Prop where
  settled : Settled pending now
  rest : ∀ k, (∀ w ∈ pending, w.key ≠ k) → seen k = now k

variable {pending new : Multiset (Write K V)} {seen seen' now now' : K → V} {w : Write K V}

instance [DecidableEq K] (w : Write K V) (pending : Multiset (Write K V)) :
    Decidable (w.Last pending) :=
  inferInstanceAs (Decidable (∀ _ ∈ pending, _))

lemma Settled.drop (h : Settled (w ::ₘ pending) now)
    (hin : w.Last pending →
      ∀ u ∈ pending, u.key = w.key → u.Last pending → u.value = w.value) :
    Settled pending now := by
  intro u hu hlast
  by_cases hbefore : u.key = w.key ∧ u.seq < w.seq
  · -- then `w` was the last one
    obtain ⟨hkey, hseq⟩ := hbefore
    have hw : w.Last pending := fun w' hw' hk =>
      (hlast w' hw' (hk.trans hkey.symm)).trans hseq.le
    rw [hin hw u hu hkey hlast, hkey]
    refine h w (Multiset.mem_cons_self _ _) fun w' hw' hk => ?_
    rcases Multiset.mem_cons.mp hw' with rfl | hw'
    · exact le_rfl
    · exact hw w' hw' hk
  · refine h u (Multiset.mem_cons_of_mem hu) fun w' hw' hk => ?_
    rcases Multiset.mem_cons.mp hw' with rfl | hw'
    · exact not_lt.mp fun hlt => hbefore ⟨hk.symm, hlt⟩
    · exact hlast w' hw' hk

namespace Leads

lemma refl (now : K → V) : Leads 0 now now := ⟨fun w hw => by simp at hw, fun _ _ => rfl⟩

lemma of_settled (h : Settled pending now) : Leads pending now now := ⟨h, fun _ _ => rfl⟩

lemma one [DecidableEq K] (w : Write K V) (now : K → V) :
    Leads {w} now (Function.update now w.key w.value) where
  settled w' hw' _ := by
    rw [Multiset.mem_singleton.mp hw', Function.update_self]
  rest k hk := (Function.update_of_ne (hk w (by simp)).symm _ _).symm

lemma trans (h : Leads pending seen now) (h' : Leads new now now')
    (hlater : ∀ w ∈ pending, ∀ w' ∈ new, w.seq < w'.seq) : Leads (new + pending) seen now' where
  settled w hw hlast := by
    rcases Multiset.mem_add.mp hw with hnew | hold
    · exact h'.settled w hnew fun w' hw' => hlast w' (Multiset.mem_add.mpr (.inl hw'))
    · -- nothing new is written to its key
      have hkey : ∀ w' ∈ new, w'.key ≠ w.key := fun w' hw' heq =>
        absurd (hlast w' (Multiset.mem_add.mpr (.inl hw')) heq)
          (not_le.mpr (hlater w hold w' hw'))
      calc w.value = now w.key :=
            h.settled w hold fun w' hw' => hlast w' (Multiset.mem_add.mpr (.inr hw'))
        _ = now' w.key := h'.rest w.key hkey
  rest k hk :=
    calc seen k = now k := h.rest k fun w hw => hk w (Multiset.mem_add.mpr (.inr hw))
      _ = now' k := h'.rest k fun w hw => hk w (Multiset.mem_add.mpr (.inl hw))

lemma arrive [DecidableEq K] (h : Leads (w ::ₘ pending) seen now) (hs : Settled pending now) :
    Leads pending (Function.update seen w.key w.value) now where
  settled := hs
  rest k hk := by
    by_cases hkey : k = w.key
    · subst hkey
      rw [Function.update_self]
      refine h.settled w (Multiset.mem_cons_self _ _) fun w' hw' hk' => ?_
      rcases Multiset.mem_cons.mp hw' with rfl | hw'
      · exact le_rfl
      · exact absurd hk' (hk w' hw')
    · rw [Function.update_of_ne hkey]
      refine h.rest k fun w' hw' => ?_
      rcases Multiset.mem_cons.mp hw' with rfl | hw'
      · exact Ne.symm hkey
      · exact hk w' hw'

lemma done (h : Leads 0 seen now) : seen = now := funext fun k => h.rest k (by simp)

end Leads

end VoiceHub.Lib
