import Mathlib
import VoiceHub.Lib.Machine

/-!
The muted silence of one owner, dropped without leaving holes.

A drop is remembered by its number in a bounded queue, and counted when it leaves the queue. A
packet is never out of place by more than half the queue, so a drop that has been counted lies
before every packet that is still to come.
-/

namespace VoiceHub.Sfu.Audio

open VoiceHub.Lib.Machine

/-- A muted microphone sends frames of a few bytes. -/
def MUTED_SILENCE_MAX : ℕ := 40

def SKIPS_KEPT : ℕ := 64

/-- The latest drops, the first one first; how many left that queue; the highest number
forwarded; whether the next packet starts a talkspurt. -/
structure Skips where
  recent : List ℕ
  older : ℕ
  forwarded : ℕ
  resumed : Bool
  deriving DecidableEq

namespace Skips

def empty : Skips := ⟨[], 0, 0, false⟩

/-- An owner packet's number and marker as the slots see it. The flag is taken only when the
marker does not answer already. -/
def shift (sk : Skips) (seq : ℕ) (marker : Bool) : Skips × ℕ × Bool :=
  let sk := { sk with forwarded := max sk.forwarded seq }
  let dropped := sk.older + sk.recent.countP (· < seq)
  ({ sk with resumed := marker && sk.resumed }, seq - dropped, marker || sk.resumed)

/-- Drops one packet, unless a later one was forwarded. -/
def skip (sk : Skips) (seq : ℕ) : Skips × Bool :=
  if seq < sk.forwarded then (sk, false)
  else
    let recent := sk.recent ++ [seq]
    let sk := if SKIPS_KEPT < recent.length then
        { sk with recent := recent.tail, older := sk.older + 1 }
      else { sk with recent := recent }
    ({ sk with resumed := true }, true)

end Skips

/-- A packet of the owner, and whether the owner was muted when it came. -/
structure Arrival where
  seq : ℕ
  marker : Bool
  payload : List UInt8
  muted : Bool
  deriving DecidableEq

/-- `on_event`: the number and marker a packet is forwarded with, if it is. -/
def onEvent (sk : Skips) (pkt : Arrival) : Skips × Option (ℕ × Bool) :=
  if pkt.muted && pkt.payload.length ≤ MUTED_SILENCE_MAX && (sk.skip pkt.seq).2 then
    ((sk.skip pkt.seq).1, none)
  else
    let (sk, out) := sk.shift pkt.seq pkt.marker
    (sk, some out)

/-! ### Runs -/

/-- A packet that was processed, and what it was forwarded with. -/
structure Passed where
  seq : ℕ
  out : Option (ℕ × Bool)
  deriving DecidableEq

/-- A track, and the packets so far, the earliest first. -/
structure TrackRun where
  skips : Skips
  log : List Passed
  deriving DecidableEq

/-- The numbers of the packets that were dropped. -/
def dropped (log : List Passed) : List ℕ :=
  log.filterMap fun x => if x.out.isNone then some x.seq else none

namespace TrackRun

def start : TrackRun := ⟨.empty, []⟩

def step (r : TrackRun) (pkt : Arrival) : Option TrackRun :=
  let (sk, out) := onEvent r.skips pkt
  some ⟨sk, r.log ++ [⟨pkt.seq, out⟩]⟩

/-- No number comes twice, and none comes after one that is more than 32 higher. -/
def NearlyInOrder (r : TrackRun) (pkt : Arrival) : Prop :=
  ∀ x ∈ r.log, x.seq ≠ pkt.seq ∧ x.seq ≤ pkt.seq + 32

instance (r : TrackRun) (pkt : Arrival) : Decidable (r.NearlyInOrder pkt) :=
  inferInstanceAs (Decidable (∀ x ∈ r.log, x.seq ≠ pkt.seq ∧ x.seq ≤ pkt.seq + 32))

end TrackRun

/-- What a packet was forwarded as, under the owner's number. -/
def given (log : List Passed) (seq : ℕ) : Option ℕ :=
  (log.find? (·.seq = seq)).bind fun x => x.out.map Prod.fst

/-- **Gapless and free of collisions**: a forwarded packet is numbered past the lower ones
that were ever dropped. -/
structure Gapless (log : List Passed) : Prop where
  numbered : ∀ x ∈ log, ∀ out ∈ x.out, out.1 + Nat.count (· ∈ dropped log) x.seq = x.seq
  increasing : ∀ x ∈ log, ∀ y ∈ log, ∀ m ∈ x.out, ∀ n ∈ y.out, x.seq < y.seq → m.1 < n.1
  consecutive : ∀ a n, (∀ k, a ≤ k → k < a + n → ∃ x ∈ log, x.seq = k) →
    ∃ s k, (List.range' a n).filterMap (given log) = List.range' s k

/-! ### What one packet does -/

/-- What a run keeps. -/
structure Counted (r : TrackRun) : Prop where
  older : r.skips.older = (dropped r.log).length - SKIPS_KEPT
  recent : r.skips.recent = (dropped r.log).drop r.skips.older
  forwarded : ∀ x ∈ r.log, x.out.isSome → x.seq ≤ r.skips.forwarded
  distinct : (r.log.map Passed.seq).Nodup
  near : (r.log.map Passed.seq).Pairwise (· ≤ · + 32)
  numbered : ∀ x ∈ r.log, ∀ out ∈ x.out,
    out.1 + (dropped r.log).countP (· < x.seq) = x.seq

section

variable {log : List Passed} {sk : Skips} {r r' : TrackRun} {pkt : Arrival}

lemma dropped_snoc (x : Passed) :
    dropped (log ++ [x]) = dropped log ++ if x.out.isNone then [x.seq] else [] := by
  cases h : x.out <;> simp [dropped, h]

lemma dropped_sublist (log : List Passed) : (dropped log).Sublist (log.map Passed.seq) := by
  induction log with
  | nil => exact .slnil
  | cons x log ih =>
    cases h : x.out with
    | none => simpa [dropped, h] using ih
    | some out =>
      have hcons : dropped (x :: log) = dropped log := by simp [dropped, h]
      rw [hcons]
      exact ih.cons _

lemma onEvent_cases (sk : Skips) (pkt : Arrival) :
    (sk.forwarded ≤ pkt.seq ∧ onEvent sk pkt = ((sk.skip pkt.seq).1, none)) ∨
      onEvent sk pkt =
        ((sk.shift pkt.seq pkt.marker).1, some (sk.shift pkt.seq pkt.marker).2) := by
  unfold onEvent
  split_ifs with h
  · left
    refine ⟨?_, rfl⟩
    by_contra hlt
    rw [Skips.skip, if_pos (not_le.mp hlt)] at h
    simp at h
  · exact .inr rfl

lemma skip_spec {seq : ℕ} (h : sk.forwarded ≤ seq) (drops : List ℕ)
    (ho : sk.older = drops.length - SKIPS_KEPT) (hr : sk.recent = drops.drop sk.older) :
    (sk.skip seq).1.older = (drops ++ [seq]).length - SKIPS_KEPT ∧
      (sk.skip seq).1.recent = (drops ++ [seq]).drop (sk.skip seq).1.older ∧
      (sk.skip seq).1.forwarded = sk.forwarded := by
  have hlen : (sk.recent ++ [seq]).length = drops.length - sk.older + 1 := by
    rw [hr, List.length_append, List.length_drop, List.length_singleton]
  have hle : sk.older ≤ drops.length := by omega
  have happ : sk.recent ++ [seq] = (drops ++ [seq]).drop sk.older := by
    rw [hr, List.drop_append_of_le_length hle]
  unfold Skips.skip
  rw [if_neg (not_lt.mpr h)]
  dsimp only
  split_ifs with hfull
  · refine ⟨?_, ?_, rfl⟩
    · rw [List.length_append, List.length_singleton]
      unfold SKIPS_KEPT at *
      dsimp only
      omega
    · dsimp only
      rw [happ, List.tail_drop]
  · refine ⟨?_, happ, rfl⟩
    rw [List.length_append, List.length_singleton]
    unfold SKIPS_KEPT at *
    dsimp only
    omega

/-- A drop that left the queue lies before a packet that is still to come: the drops after it
are too many for the numbers around both. -/
lemma lt_of_older {drops : List ℕ} {n d : ℕ} (hnd : drops.Nodup)
    (hnear : drops.Pairwise (· ≤ · + 32)) (hn : ∀ e ∈ drops, e ≠ n ∧ e ≤ n + 32)
    (hd : d ∈ drops.take (drops.length - SKIPS_KEPT)) : d < n := by
  obtain ⟨k, hk⟩ : ∃ k, k = drops.length - SKIPS_KEPT := ⟨_, rfl⟩
  rw [← hk] at hd
  have hsplit : drops.take k ++ drops.drop k = drops := List.take_append_drop k drops
  have hlate : (drops.drop k).length = SKIPS_KEPT := by
    have hpos : 0 < (drops.take k).length := List.length_pos_of_mem hd
    rw [List.length_take] at hpos
    rw [List.length_drop]
    omega
  rw [← hsplit] at hnd hnear
  obtain ⟨-, hndl, hdisj⟩ := List.nodup_append.mp hnd
  by_contra hge
  have hdn := hn d (List.mem_of_mem_take hd)
  -- the late drops are numbers from d - 32 to n + 32, other than d
  have hsub : (drops.drop k).toFinset ⊆ (Finset.Icc (d - 32) (n + 32)).erase d := by
    intro e he
    rw [List.mem_toFinset] at he
    have hen := hn e (List.mem_of_mem_drop he)
    have hde := (List.pairwise_append.mp hnear).2.2 d hd e he
    have hne := hdisj d hd e he
    rw [Finset.mem_erase, Finset.mem_Icc]
    exact ⟨hne.symm, by omega, hen.2⟩
  have hmem : d ∈ Finset.Icc (d - 32) (n + 32) := by
    rw [Finset.mem_Icc]
    omega
  have hcard := Finset.card_le_card hsub
  rw [List.toFinset_card_of_nodup hndl, Finset.card_erase_of_mem hmem, Nat.card_Icc,
    hlate] at hcard
  unfold SKIPS_KEPT at hcard
  omega

lemma shift_dropped {drops : List ℕ} {n : ℕ} (hnd : drops.Nodup)
    (hnear : drops.Pairwise (· ≤ · + 32)) (hn : ∀ e ∈ drops, e ≠ n ∧ e ≤ n + 32)
    (ho : sk.older = drops.length - SKIPS_KEPT) (hr : sk.recent = drops.drop sk.older) :
    sk.older + sk.recent.countP (· < n) = drops.countP (· < n) := by
  have hold : (drops.take sk.older).countP (· < n) = sk.older := by
    have hlen : (drops.take sk.older).length = sk.older := by
      rw [List.length_take]
      omega
    rw [List.countP_eq_length.mpr, hlen]
    intro d hd
    rw [ho] at hd
    exact decide_eq_true (lt_of_older hnd hnear hn hd)
  calc sk.older + sk.recent.countP (· < n)
      = (drops.take sk.older).countP (· < n) + (drops.drop sk.older).countP (· < n) := by
        rw [hold, hr]
    _ = drops.countP (· < n) := by rw [← List.countP_append, List.take_append_drop]

lemma countP_lt_eq {drops : List ℕ} (hnd : drops.Nodup) (n : ℕ) :
    drops.countP (· < n) = Nat.count (· ∈ drops) n := by
  rw [Nat.count_eq_card_filter_range, List.countP_eq_length_filter,
    ← List.toFinset_card_of_nodup (hnd.filter _)]
  congr 1
  ext x
  simp [and_comm]

lemma Counted.step (h : Counted r) (hpkt : r.NearlyInOrder pkt) (hs : r.step pkt = some r') :
    Counted r' := by
  obtain ⟨sk, hsk⟩ : ∃ sk, sk = r.skips := ⟨_, rfl⟩
  have hdistinct (out : Option (ℕ × Bool)) :
      ((r.log ++ [Passed.mk pkt.seq out]).map Passed.seq).Nodup := by
    rw [List.map_append, List.map_singleton]
    refine h.distinct.append (List.nodup_singleton _) fun n hn hn' => ?_
    obtain ⟨x, hx, rfl⟩ := List.mem_map.mp hn
    exact (hpkt x hx).1 (List.mem_singleton.mp hn')
  have hnear (out : Option (ℕ × Bool)) :
      ((r.log ++ [Passed.mk pkt.seq out]).map Passed.seq).Pairwise (· ≤ · + 32) := by
    rw [List.map_append, List.map_singleton]
    refine List.pairwise_append.mpr ⟨h.near, List.pairwise_singleton _ _, fun n hn m hm => ?_⟩
    obtain ⟨x, hx, rfl⟩ := List.mem_map.mp hn
    obtain rfl := List.mem_singleton.mp hm
    exact (hpkt x hx).2
  rcases onEvent_cases r.skips pkt with ⟨hge, ho⟩ | ho
  · rw [TrackRun.step, ho] at hs
    obtain rfl := Option.some.inj hs
    obtain ⟨hold, hrec, hfwd⟩ := skip_spec hge _ h.older h.recent
    have hdrop : dropped (r.log ++ [⟨pkt.seq, none⟩]) = dropped r.log ++ [pkt.seq] :=
      dropped_snoc _
    refine ⟨by rw [hdrop]; exact hold, by rw [hdrop]; exact hrec, ?_, hdistinct _, hnear _, ?_⟩
    · intro x hx hout
      rw [hfwd]
      rcases List.mem_append.mp hx with hx | hx
      · exact h.forwarded x hx hout
      · rw [List.mem_singleton.mp hx] at hout
        cases hout
    · intro x hx out hout
      rcases List.mem_append.mp hx with hx | hx
      · -- the new drop is above every packet that was forwarded
        have hle := (h.forwarded x hx (Option.isSome_of_mem hout)).trans hge
        rw [hdrop, List.countP_append, List.countP_singleton, if_neg (by simpa using hle)]
        exact h.numbered x hx out hout
      · rw [List.mem_singleton.mp hx] at hout
        cases hout
  · rw [TrackRun.step, ho] at hs
    obtain rfl := Option.some.inj hs
    have hdrop (out : ℕ × Bool) : dropped (r.log ++ [⟨pkt.seq, some out⟩]) = dropped r.log := by
      rw [dropped_snoc]
      exact List.append_nil _
    have hsub := dropped_sublist r.log
    have hmem : ∀ e ∈ dropped r.log, e ≠ pkt.seq ∧ e ≤ pkt.seq + 32 := by
      intro e he
      obtain ⟨x, hx, rfl⟩ := List.mem_map.mp (hsub.subset he)
      exact hpkt x hx
    have hcount := shift_dropped (h.distinct.sublist hsub) (h.near.sublist hsub) hmem h.older
      h.recent
    refine ⟨by rw [hdrop]; exact h.older, by rw [hdrop]; exact h.recent, ?_, hdistinct _,
      hnear _, ?_⟩
    · intro x hx hout
      rcases List.mem_append.mp hx with hx | hx
      · exact le_max_of_le_left (h.forwarded x hx hout)
      · rw [List.mem_singleton.mp hx]
        exact le_max_right _ _
    · intro x hx out hout
      rw [hdrop]
      rcases List.mem_append.mp hx with hx | hx
      · exact h.numbered x hx out hout
      · rw [List.mem_singleton.mp hx] at hout ⊢
        obtain rfl := Option.some.inj hout
        have hle : (dropped r.log).countP (· < pkt.seq) ≤ pkt.seq := by
          rw [countP_lt_eq (h.distinct.sublist hsub)]
          exact Nat.count_le _
        dsimp only [Skips.shift]
        rw [hcount]
        omega

end

/-! ### What the numbers of a run are -/

section

variable {r : TrackRun}

lemma not_mem_dropped (h : (r.log.map Passed.seq).Nodup) {x : Passed} (hx : x ∈ r.log)
    {out : ℕ × Bool} (hout : out ∈ x.out) : x.seq ∉ dropped r.log := by
  intro hmem
  obtain ⟨y, hy, hyx⟩ := List.mem_filterMap.mp hmem
  split_ifs at hyx with hnone
  obtain rfl := List.inj_on_of_nodup_map h hy hx (Option.some.inj hyx)
  rw [Option.mem_def] at hout
  rw [hout] at hnone
  cases hnone

lemma mem_dropped {log : List Passed} {x : Passed} (hx : x ∈ log) (hout : x.out = none) :
    x.seq ∈ dropped log := List.mem_filterMap.mpr ⟨x, hx, by simp [hout]⟩

lemma given_eq (h : (r.log.map Passed.seq).Nodup) {x : Passed} (hx : x ∈ r.log) :
    given r.log x.seq = x.out.map Prod.fst := by
  have hfind : r.log.find? (·.seq = x.seq) = some x := by
    obtain ⟨y, hy⟩ : ∃ y, r.log.find? (·.seq = x.seq) = some y := by
      rw [← Option.isSome_iff_exists, List.find?_isSome]
      exact ⟨x, hx, by simp⟩
    have hseq := List.find?_some hy
    rw [hy, List.inj_on_of_nodup_map h (List.mem_of_find?_eq_some hy) hx (of_decide_eq_true hseq)]
  rw [given, hfind]
  rfl

lemma Counted.consecutive (h : Counted r)
    (hnum : ∀ x ∈ r.log, ∀ out ∈ x.out,
      out.1 + Nat.count (· ∈ dropped r.log) x.seq = x.seq) (a n : ℕ)
    (hall : ∀ k, a ≤ k → k < a + n → ∃ x ∈ r.log, x.seq = k) :
    ∃ k, (List.range' a n).filterMap (given r.log) =
        List.range' (a - Nat.count (· ∈ dropped r.log) a) k ∧
      k + Nat.count (· ∈ dropped r.log) (a + n) = n + Nat.count (· ∈ dropped r.log) a := by
  induction n with
  | zero => exact ⟨0, rfl, rfl⟩
  | succ n ih =>
    obtain ⟨k, hk, hcount⟩ := ih fun j haj hj => hall j haj (by omega)
    obtain ⟨x, hx, hxn⟩ := hall (a + n) (by omega) (by omega)
    have hle : Nat.count (· ∈ dropped r.log) a ≤ a := Nat.count_le _
    have hsucc := Nat.count_succ (· ∈ dropped r.log) (a + n)
    have hone : [a + n].filterMap (given r.log) = (x.out.map Prod.fst).toList := by
      rw [← hxn, ← given_eq h.distinct hx]
      cases hg : given r.log x.seq <;> simp [hg]
    rw [← add_assoc, List.range'_concat, one_mul, List.filterMap_append, hk, hone, hsucc]
    cases hout : x.out with
    | none =>
      have hdrop := mem_dropped hx hout
      rw [hxn] at hdrop
      refine ⟨k, List.append_nil _, ?_⟩
      rw [if_pos hdrop]
      omega
    | some out =>
      have hdrop := not_mem_dropped h.distinct hx hout
      have hnumber := hnum x hx out hout
      rw [hxn] at hdrop hnumber
      refine ⟨k + 1, ?_, ?_⟩
      · rw [List.range'_concat, one_mul]
        have hout1 : out.1 = a - Nat.count (· ∈ dropped r.log) a + k := by omega
        simp [hout1]
      · rw [if_neg hdrop]
        omega

lemma Counted.leaves_no_gap (h : Counted r) : Gapless r.log := by
  have hnum : ∀ x ∈ r.log, ∀ out ∈ x.out,
      out.1 + Nat.count (· ∈ dropped r.log) x.seq = x.seq := by
    intro x hx out hout
    rw [← countP_lt_eq (h.distinct.sublist (dropped_sublist r.log))]
    exact h.numbered x hx out hout
  refine ⟨hnum, fun x hx y hy m hm n hn hlt => ?_, fun a n hall => ?_⟩
  · have hmx := hnum x hx m hm
    have hny := hnum y hy n hn
    -- between the two lie at most as many drops as numbers, less the first packet itself
    obtain ⟨d, hd⟩ : ∃ d, y.seq = x.seq + 1 + d := ⟨y.seq - (x.seq + 1), by omega⟩
    have hle : Nat.count (fun k => x.seq + 1 + k ∈ dropped r.log) d ≤ d := Nat.count_le _
    have hcount := Nat.count_add (· ∈ dropped r.log) (x.seq + 1) d
    rw [Nat.count_succ, if_neg (not_mem_dropped h.distinct hx hm)] at hcount
    rw [hd] at hny
    omega
  · obtain ⟨k, hk, -⟩ := h.consecutive hnum a n hall
    exact ⟨_, k, hk⟩

end

/-- **Dropped silence leaves no gap**: in every run of packets that are nearly in order, with
any of them offered to be dropped. -/
theorem gapless {r : TrackRun} (hr : Reach TrackRun.step TrackRun.NearlyInOrder .start r) :
    Gapless r.log := by
  have hstart : Counted .start := by constructor <;> simp [TrackRun.start, Skips.empty, dropped]
  exact (hr.invariant hstart fun _ _ _ h hpkt hs => h.step hpkt hs).leaves_no_gap

/-- Two packets that cross a drop, and one too late to be dropped. -/
def crossed : List Arrival :=
  [⟨99, false, [], false⟩, ⟨101, false, [], true⟩, ⟨100, false, [], false⟩,
    ⟨103, false, [], false⟩, ⟨102, false, [], true⟩]

theorem gapless_crossed :
    ((run TrackRun.step .start crossed).getD .start).log =
        [⟨99, some (99, false)⟩, ⟨101, none⟩, ⟨100, some (100, true)⟩, ⟨103, some (102, false)⟩,
          ⟨102, some (101, false)⟩] ∧
      Gapless ((run TrackRun.step .start crossed).getD .start).log :=
  ⟨by decide +kernel, gapless (Reach.of_isSome (by decide +kernel) (by decide +kernel))⟩

end VoiceHub.Sfu.Audio
