import Mathlib
import VoiceHub.Lib.Machine
import VoiceHub.Lib.HashMap

/-!
One slot's stream of packets, and the subscriptions that write into it one after another.

Every call of `Sub::map` holds the lock of `SlotStream.last`, so the calls of all the
subscriptions of a slot come one at a time, in any order: `forward` works on a copy of the
list of subscriptions, and one that was removed meanwhile may still be called.
-/

namespace VoiceHub.Sfu.Audio.SlotStream

open VoiceHub.Lib VoiceHub.Lib.Machine

abbrev Instant := ℕ

/-- Opus at 48 kHz, 20 ms frames. -/
def SAMPLES_PER_FRAME : UInt32 := 960

/-- Last packet written into a slot, whoever owned it. -/
structure Last where
  seq : UInt64
  ts : UInt32
  time : Instant
deriving DecidableEq, Repr

/-- Maps the owner's stream onto the slot's, fixed by its first packet there. -/
structure SlotBase where
  inSeq : UInt64
  inTs : UInt32
  outSeq : UInt64
  outTs : UInt32
deriving DecidableEq, Repr

/-- `(now.duration_since(at).as_millis() as u32).saturating_mul(48).max(SAMPLES_PER_FRAME)`. -/
def gap (time now : Instant) : UInt32 :=
  let millis := UInt32.ofNat ((now - time) / 1000000)
  max (UInt32.ofNat (min (millis.toNat * 48) (2 ^ 32 - 1))) SAMPLES_PER_FRAME

/-- The base an owner's first packet fixes: one frame, or the real silence, after the
previous owner. Sums wrap, as in a release build. -/
def firstBase (last : Option Last) (inSeq : UInt64) (inTs : UInt32) (now : Instant) : SlotBase :=
  match last with
  | some l => ⟨inSeq, inTs, l.seq + 1, l.ts + gap l.time now⟩
  | none => ⟨inSeq, inTs, 1, 0⟩

/-- `Sub::map`: the base from now on, the slot's last packet, and the packet's sequence
number, timestamp and marker, if it does not predate the owner's first. -/
def map (last : Option Last) (base : Option SlotBase) (inSeq : UInt64) (inTs : UInt32)
    (marker : Bool) (now : Instant) :
    SlotBase × Option Last × Option (UInt64 × UInt32 × Bool) :=
  let b := base.getD (firstBase last inSeq inTs now)
  if inSeq < b.inSeq then (b, last, none)
  else
    let seq := b.outSeq + (inSeq - b.inSeq)
    let ts := b.outTs + (inTs - b.inTs)
    (b, if last.all (·.seq < seq) then some ⟨seq, ts, now⟩ else last,
      some (seq, ts, base.isNone || marker))

/-- A packet on its way into the slot through one of its subscriptions. -/
structure Call where
  sub : ℕ
  inSeq : UInt64
  inTs : UInt32
  marker : Bool
  now : Instant
deriving DecidableEq, Repr

/-- A packet that has been given its place in the slot. -/
structure Returned where
  sub : ℕ
  inSeq : UInt64
  seq : UInt64
  ts : UInt32
  marker : Bool
deriving DecidableEq, Repr

/-- The slot, the base of each of its subscriptions, and what has been returned so far. -/
structure Slot where
  last : Option Last
  base : HashMap ℕ SlotBase
  returned : List Returned

def Slot.empty : Slot := ⟨none, ∅, []⟩

/-- One call. -/
def Slot.call (s : Slot) (c : Call) : Slot :=
  let (b, last, out) := map s.last (s.base.lookup c.sub) c.inSeq c.inTs c.marker c.now
  { last := last, base := s.base.insert c.sub b,
    returned := s.returned ++
      (out.map fun (seq, ts, marker) => ⟨c.sub, c.inSeq, seq, ts, marker⟩).toList }

def Slot.step (s : Slot) (c : Call) : Option Slot := some (s.call c)

/-- No number of the slot is past what 64 bits hold. -/
def Fits (s : Slot) (c : Call) : Prop :=
  match s.base.lookup c.sub with
  | none => ∀ l ∈ s.last, l.seq.toNat + 1 < 2 ^ 64
  | some b => b.inSeq ≤ c.inSeq → b.outSeq.toNat + (c.inSeq - b.inSeq).toNat < 2 ^ 64

/-- An owner that others have followed has no more packets than were left to it when the
first of these took over. -/
def InTime (s : Slot) (c : Call) : Prop :=
  ∀ b ∈ s.base.lookup c.sub, b.inSeq ≤ c.inSeq → ∀ later ∈ s.base.values,
    b.outSeq < later.outSeq → c.inSeq - b.inSeq < later.outSeq - b.outSeq

def Orderly (s : Slot) (c : Call) : Prop := Fits s c ∧ InTime s c

instance (s : Slot) (c : Call) : Decidable (Fits s c) :=
  match h : s.base.lookup c.sub with
  | none => decidable_of_iff (∀ l ∈ s.last, l.seq.toNat + 1 < 2 ^ 64) (by simp [Fits, h])
  | some b =>
    decidable_of_iff (b.inSeq ≤ c.inSeq → b.outSeq.toNat + (c.inSeq - b.inSeq).toNat < 2 ^ 64)
      (by simp [Fits, h])

instance (s : Slot) (c : Call) : Decidable (InTime s c) :=
  inferInstanceAs (Decidable (∀ b ∈ s.base.lookup c.sub, b.inSeq ≤ c.inSeq →
    ∀ later ∈ s.base.values, b.outSeq < later.outSeq →
      c.inSeq - b.inSeq < later.outSeq - b.outSeq))

instance (s : Slot) (c : Call) : Decidable (Orderly s c) :=
  inferInstanceAs (Decidable (Fits s c ∧ InTime s c))

section Lemmas

variable {last : Option Last} {b : SlotBase} {inSeq : UInt64} {inTs : UInt32} {marker : Bool}
  {now : Instant}

lemma map_first (h : ∀ l ∈ last, l.seq.toNat + 1 < 2 ^ 64) :
    map last none inSeq inTs marker now =
      (firstBase last inSeq inTs now,
        some ⟨(firstBase last inSeq inTs now).outSeq, (firstBase last inSeq inTs now).outTs, now⟩,
        some ((firstBase last inSeq inTs now).outSeq, (firstBase last inSeq inTs now).outTs,
          true)) := by
  cases last with
  | none => simp [map, firstBase]
  | some l =>
    have hl := h l rfl
    have hlt : l.seq < l.seq + 1 := by
      rw [UInt64.lt_iff_toNat_lt, UInt64.toNat_add]
      simp only [UInt64.reduceToNat]
      omega
    simp [map, firstBase, hlt]

lemma map_late (h : inSeq < b.inSeq) :
    map last (some b) inSeq inTs marker now = (b, last, none) := by
  simp [map, h]

lemma map_next (h : b.inSeq ≤ inSeq) :
    map last (some b) inSeq inTs marker now =
      (b, if last.all (·.seq < b.outSeq + (inSeq - b.inSeq)) then
          some ⟨b.outSeq + (inSeq - b.inSeq), b.outTs + (inTs - b.inTs), now⟩ else last,
        some (b.outSeq + (inSeq - b.inSeq), b.outTs + (inTs - b.inTs), marker)) := by
  simp [map, UInt64.not_lt.mpr h]

end Lemmas

section Calls

variable {s : Slot} {c : Call}

/-- The base `c` fixes if it is its owner's first packet. -/
def Slot.start (s : Slot) (c : Call) : SlotBase := firstBase s.last c.inSeq c.inTs c.now

lemma call_first (hb : s.base.lookup c.sub = none)
    (hfits : ∀ l ∈ s.last, l.seq.toNat + 1 < 2 ^ 64) : s.call c =
      { last := some ⟨(s.start c).outSeq, (s.start c).outTs, c.now⟩,
        base := s.base.insert c.sub (s.start c),
        returned := s.returned ++
          [⟨c.sub, c.inSeq, (s.start c).outSeq, (s.start c).outTs, true⟩] } := by
  rw [Slot.call, hb, map_first hfits]
  rfl

lemma call_late {b : SlotBase} (hb : s.base.lookup c.sub = some b) (h : c.inSeq < b.inSeq) :
    s.call c = { s with base := s.base.insert c.sub b } := by
  rw [Slot.call, hb, map_late h]
  simp

lemma call_next {b : SlotBase} (hb : s.base.lookup c.sub = some b) (h : b.inSeq ≤ c.inSeq) :
    s.call c =
      { last := if s.last.all (·.seq < b.outSeq + (c.inSeq - b.inSeq)) then
          some ⟨b.outSeq + (c.inSeq - b.inSeq), b.outTs + (c.inTs - b.inTs), c.now⟩ else s.last,
        base := s.base.insert c.sub b,
        returned := s.returned ++ [⟨c.sub, c.inSeq, b.outSeq + (c.inSeq - b.inSeq),
          b.outTs + (c.inTs - b.inTs), c.marker⟩] } := by
  rw [Slot.call, hb, map_next h]
  rfl

lemma start_inSeq : (s.start c).inSeq = c.inSeq := by
  unfold Slot.start firstBase
  split <;> rfl

lemma lt_start (hfits : ∀ l ∈ s.last, l.seq.toNat + 1 < 2 ^ 64) {l : Last}
    (hl : s.last = some l) : l.seq.toNat < (s.start c).outSeq.toNat := by
  have := hfits l hl
  simp only [Slot.start, firstBase, hl, UInt64.toNat_add, UInt64.reduceToNat]
  omega

lemma next_toNat {b : SlotBase} (h : b.inSeq ≤ c.inSeq)
    (hfits : b.outSeq.toNat + (c.inSeq - b.inSeq).toNat < 2 ^ 64) :
    (b.outSeq + (c.inSeq - b.inSeq)).toNat = b.outSeq.toNat + (c.inSeq.toNat - b.inSeq.toNat) := by
  rw [UInt64.toNat_sub_of_le _ _ h] at hfits
  rw [UInt64.toNat_add, UInt64.toNat_sub_of_le _ _ h, Nat.mod_eq_of_lt hfits]

end Calls

/-- Each owner's packets lie one after another from its start, and below every later
start. -/
structure Numbered (s : Slot) : Prop where
  base : ∀ x b, s.base.lookup x = some b →
    ∃ l, s.last = some l ∧ b.outSeq.toNat ≤ l.seq.toNat
  apart : ∀ x y b d, s.base.lookup x = some b → s.base.lookup y = some d →
    b.outSeq.toNat = d.outSeq.toNat → x = y
  last : ∀ r ∈ s.returned, ∃ l, s.last = some l ∧ r.seq.toNat ≤ l.seq.toNat
  place : ∀ r ∈ s.returned, ∃ b, s.base.lookup r.sub = some b ∧
    b.inSeq.toNat ≤ r.inSeq.toNat ∧
    r.seq.toNat = b.outSeq.toNat + (r.inSeq.toNat - b.inSeq.toNat)
  below : ∀ r ∈ s.returned, ∀ b y d, s.base.lookup r.sub = some b →
    s.base.lookup y = some d → b.outSeq.toNat < d.outSeq.toNat → r.seq.toNat < d.outSeq.toNat

section Steps

variable {s : Slot} {c : Call}

lemma empty_numbered : Numbered .empty := by
  constructor <;> simp [Slot.empty]

/-- The first packet of an owner starts above everything in the slot. -/
lemma Numbered.call_first (h : Numbered s) (hb : s.base.lookup c.sub = none)
    (hfits : ∀ l ∈ s.last, l.seq.toNat + 1 < 2 ^ 64) : Numbered (s.call c) := by
  rw [SlotStream.call_first hb hfits]
  have hbase : ∀ x b, s.base.lookup x = some b →
      b.outSeq.toNat < (s.start c).outSeq.toNat := by
    intro x b hx
    obtain ⟨l, hl, hle⟩ := h.base x b hx
    exact lt_of_le_of_lt hle (lt_start hfits hl)
  have hret : ∀ r ∈ s.returned, r.sub ≠ c.sub ∧ r.seq.toNat < (s.start c).outSeq.toNat := by
    intro r hr
    obtain ⟨l, hl, hle⟩ := h.last r hr
    obtain ⟨b, hrb, -⟩ := h.place r hr
    refine ⟨fun heq => ?_, lt_of_le_of_lt hle (lt_start hfits hl)⟩
    rw [heq, hb] at hrb
    cases hrb
  constructor
  · intro x b hx
    refine ⟨_, rfl, ?_⟩
    rw [HashMap.lookup_insert] at hx
    split at hx
    · cases hx
      exact le_rfl
    · exact (hbase x b hx).le
  · intro x y b d hx hy hbd
    rw [HashMap.lookup_insert] at hx hy
    split at hx <;> split at hy
    · next hxc hyc => rw [hxc, hyc]
    · cases hx
      have := hbase y d hy
      omega
    · cases hy
      have := hbase x b hx
      omega
    · exact h.apart x y b d hx hy hbd
  · intro r hr
    refine ⟨_, rfl, ?_⟩
    rcases List.mem_append.mp hr with hr | hr
    · exact (hret r hr).2.le
    · rw [List.mem_singleton.mp hr]
  · intro r hr
    rcases List.mem_append.mp hr with hr | hr
    · rw [HashMap.lookup_insert, if_neg (hret r hr).1]
      exact h.place r hr
    · rw [List.mem_singleton.mp hr]
      refine ⟨s.start c, AList.lookup_insert _, ?_⟩
      simp [start_inSeq]
  · intro r hr b y d hrb hy hbd
    rw [HashMap.lookup_insert] at hrb hy
    rcases List.mem_append.mp hr with hr | hr
    · rw [if_neg (hret r hr).1] at hrb
      split at hy
      · cases hy
        exact (hret r hr).2
      · exact h.below r hr b y d hrb hy hbd
    · rw [List.mem_singleton.mp hr, if_pos rfl] at hrb
      cases hrb
      split at hy
      · cases hy
        omega
      · have := hbase y d hy
        omega

lemma Numbered.call_next (h : Numbered s) {b : SlotBase} (hb : s.base.lookup c.sub = some b)
    (hle : b.inSeq ≤ c.inSeq) (hfits : Fits s c) (htime : InTime s c) :
    Numbered (s.call c) := by
  rw [SlotStream.call_next hb hle]
  have hinsert := HashMap.lookup_insert_self hb
  simp only [Fits, hb] at hfits
  have hseq := next_toNat hle (hfits hle)
  obtain ⟨l, hl, hlb⟩ := h.base c.sub b hb
  -- the slot's last packet only moves up, and not below this one
  have hlast : ∃ n, (if s.last.all (·.seq < b.outSeq + (c.inSeq - b.inSeq)) then
      some ⟨b.outSeq + (c.inSeq - b.inSeq), b.outTs + (c.inTs - b.inTs), c.now⟩ else s.last) =
        some n ∧ l.seq.toNat ≤ n.seq.toNat ∧
        (b.outSeq + (c.inSeq - b.inSeq)).toNat ≤ n.seq.toNat := by
    rw [hl]
    simp only [Option.all_some, decide_eq_true_eq, UInt64.lt_iff_toNat_lt]
    split
    · next hlt => exact ⟨_, rfl, hlt.le, le_rfl⟩
    · next hlt => exact ⟨l, rfl, le_rfl, not_lt.mp hlt⟩
  obtain ⟨n, hn, hln, hnext⟩ := hlast
  have hbelow : ∀ y d, s.base.lookup y = some d → b.outSeq.toNat < d.outSeq.toNat →
      (b.outSeq + (c.inSeq - b.inSeq)).toNat < d.outSeq.toNat := by
    intro y d hy hbd
    have hlt := htime b hb hle d (HashMap.mem_values.mpr ⟨y, hy⟩)
      (UInt64.lt_iff_toNat_lt.mpr hbd)
    rw [UInt64.lt_iff_toNat_lt, UInt64.toNat_sub_of_le _ _ hle,
      UInt64.toNat_sub_of_le _ _ (UInt64.le_iff_toNat_le.mpr hbd.le)] at hlt
    omega
  constructor
  · intro x d hx
    rw [hinsert] at hx
    obtain ⟨k, hk, hdk⟩ := h.base x d hx
    rw [hl, Option.some.injEq] at hk
    subst hk
    exact ⟨n, hn, hdk.trans hln⟩
  · intro x y d e hx hy
    rw [hinsert] at hx hy
    exact h.apart x y d e hx hy
  · intro r hr
    refine ⟨n, hn, ?_⟩
    rcases List.mem_append.mp hr with hr | hr
    · obtain ⟨k, hk, hrk⟩ := h.last r hr
      rw [hl, Option.some.injEq] at hk
      subst hk
      exact hrk.trans hln
    · rw [List.mem_singleton.mp hr]
      exact hnext
  · intro r hr
    rw [hinsert]
    rcases List.mem_append.mp hr with hr | hr
    · exact h.place r hr
    · rw [List.mem_singleton.mp hr]
      exact ⟨b, hb, UInt64.le_iff_toNat_le.mp hle, hseq⟩
  · intro r hr d y e hrd hy hde
    rw [hinsert] at hrd hy
    rcases List.mem_append.mp hr with hr | hr
    · exact h.below r hr d y e hrd hy hde
    · rw [List.mem_singleton.mp hr, hb] at hrd
      cases hrd
      rw [List.mem_singleton.mp hr]
      exact hbelow y e hy hde

lemma Numbered.call_late (h : Numbered s) {b : SlotBase} (hb : s.base.lookup c.sub = some b)
    (hlt : c.inSeq < b.inSeq) : Numbered (s.call c) := by
  rw [SlotStream.call_late hb hlt]
  have hinsert := HashMap.lookup_insert_self hb
  constructor
  · simpa only [hinsert] using h.base
  · simpa only [hinsert] using h.apart
  · exact h.last
  · simpa only [hinsert] using h.place
  · simpa only [hinsert] using h.below

lemma Numbered.call (h : Numbered s) (ho : Orderly s c) : Numbered (s.call c) := by
  obtain ⟨hfits, htime⟩ := ho
  cases hb : s.base.lookup c.sub with
  | none =>
    simp only [Fits, hb] at hfits
    exact h.call_first hb hfits
  | some b =>
    rcases UInt64.le_or_lt b.inSeq c.inSeq with hle | hlt
    · exact h.call_next hb hle hfits htime
    · exact h.call_late hb hlt

lemma Numbered.distinct (h : Numbered s) {r t : Returned} (hr : r ∈ s.returned)
    (ht : t ∈ s.returned) (heq : r.seq = t.seq) : r.sub = t.sub ∧ r.inSeq = t.inSeq := by
  obtain ⟨b, hb, hrb, hrs⟩ := h.place r hr
  obtain ⟨d, hd, htd, hts⟩ := h.place t ht
  have hn : r.seq.toNat = t.seq.toNat := congrArg _ heq
  rcases lt_trichotomy b.outSeq.toNat d.outSeq.toNat with hlt | hbd | hlt
  · have := h.below r hr b _ d hb hd hlt
    omega
  · have hsub := h.apart _ _ _ _ hb hd hbd
    rw [hsub, hd, Option.some.injEq] at hb
    subst hb
    exact ⟨hsub, UInt64.toNat.inj (by omega)⟩
  · have := h.below t ht d _ b hd hb hlt
    omega

end Steps

/-- **One packet per sequence number.** -/
theorem one_packet_per_seq {s : Slot} (hreach : Reach Slot.step Orderly .empty s) :
    ∀ r ∈ s.returned, ∀ t ∈ s.returned, r.seq = t.seq → r.sub = t.sub ∧ r.inSeq = t.inSeq := by
  have h : Numbered s := by
    refine Machine.Reach.invariant (I := Numbered) empty_numbered (fun s c t h ho ht => ?_) hreach
    cases ht
    exact h.call ho
  intro r hr t ht heq
  exact h.distinct hr ht heq

/-- The first owner sends two packets, the next one its first, and then one of the first
owner's that was sent between its two comes late. -/
def reordered : List Call :=
  [⟨0, 10, 0, false, 0⟩, ⟨0, 12, 1920, false, 0⟩, ⟨1, 5, 0, false, 0⟩, ⟨0, 11, 960, false, 0⟩]

theorem one_packet_per_seq_reordered :
    ∃ s, run Slot.step .empty reordered = some s ∧ s.returned.map (·.seq) = [1, 3, 4, 2] ∧
      ∀ r ∈ s.returned, ∀ t ∈ s.returned,
        r.seq = t.seq → r.sub = t.sub ∧ r.inSeq = t.inSeq := by
  have hm : Machine.Meets Slot.step Orderly .empty reordered := by decide +kernel
  obtain ⟨s, hs⟩ := Option.isSome_iff_exists.mp
    (show (run Slot.step .empty reordered).isSome from by decide +kernel)
  have hseq : (run Slot.step .empty reordered).map (fun s => s.returned.map (·.seq)) =
      some [1, 3, 4, 2] := by decide +kernel
  simp only [hs, Option.map_some, Option.some.injEq] at hseq
  have hreach : Reach Slot.step Orderly .empty s := .of_run .init hm hs
  exact ⟨s, hs, hseq, one_packet_per_seq hreach⟩

/-- The first owner's second packet is mapped after the next owner's first. -/
def overtaken : List Call := [⟨0, 10, 0, false, 0⟩, ⟨1, 5, 0, false, 0⟩, ⟨0, 11, 960, false, 0⟩]

/-- A packet mapped through a subscription that has been replaced takes the number of the
first packet of the next owner. -/
theorem two_packets_one_seq :
    ¬∀ s, Reach Slot.step free .empty s → ∀ r ∈ s.returned, ∀ t ∈ s.returned,
      r.seq = t.seq → r.sub = t.sub ∧ r.inSeq = t.inSeq := by
  intro h
  obtain ⟨s, hs⟩ := Option.isSome_iff_exists.mp
    (show (run Slot.step .empty overtaken).isSome from by decide +kernel)
  have hreach : Reach Slot.step free .empty s := .of_run .init (meets_free _ _) hs
  have hret : (run Slot.step .empty overtaken).map (·.returned) =
      some [⟨0, 10, 1, 0, true⟩, ⟨1, 5, 2, 960, true⟩, ⟨0, 11, 2, 960, false⟩] := by
    decide +kernel
  simp only [hs, Option.map_some, Option.some.injEq] at hret
  have := h s hreach ⟨1, 5, 2, 960, true⟩ (by simp [hret]) ⟨0, 11, 2, 960, false⟩
    (by simp [hret]) rfl
  exact absurd this.1 (by decide)

/-! ### The timestamps at a handover -/

/-- `out` is a frame or more ahead of `ts` in the order of RTP timestamps. -/
def Ahead (ts out : UInt32) : Prop := 960 ≤ (out - ts).toNat ∧ (out - ts).toNat < 2 ^ 31

lemma toNat_gap (time now : Instant) :
    (gap time now).toNat =
      max (min ((now - time) / 1000000 % 2 ^ 32 * 48) (2 ^ 32 - 1)) 960 := by
  have hmax (a b : UInt32) : (max a b).toNat = max a.toNat b.toNat := by
    change (if a ≤ b then b else a).toNat = _
    split_ifs with h
    · exact (max_eq_right (UInt32.le_iff_toNat_le.mp h)).symm
    · exact (max_eq_left (UInt32.lt_iff_toNat_lt.mp (UInt32.not_le.mp h)).le).symm
  have hmin (n : ℕ) : min n (2 ^ 32 - 1) < 2 ^ 32 := by omega
  have hms : (UInt32.ofNat ((now - time) / 1000000)).toNat = (now - time) / 1000000 % 2 ^ 32 :=
    UInt32.toNat_ofNat'
  unfold gap
  dsimp only
  rw [hmax, hms, UInt32.toNat_ofNat', Nat.mod_eq_of_lt (hmin _)]
  rfl

lemma map_handover (l : Last) (inSeq : UInt64) (inTs : UInt32) (marker : Bool) (now : Instant) :
    (map (some l) none inSeq inTs marker now).2.2 =
      some (l.seq + 1, l.ts + gap l.time now, true) := by
  simp [map, firstBase]

/-- **When the timestamp at a handover is ahead**: exactly if the silence is short enough, in
milliseconds and modulo 2^32, for half the ring of timestamps. -/
theorem ahead_iff (l : Last) (inSeq : UInt64) (inTs : UInt32) (marker : Bool) (now : Instant) :
    (∃ out ∈ (map (some l) none inSeq inTs marker now).2.2, Ahead l.ts out.2.1) ↔
      (now - l.time) / 1000000 % 2 ^ 32 * 48 < 2 ^ 31 := by
  have hdiff : l.ts + gap l.time now - l.ts = gap l.time now := by
    rw [UInt32.add_comm, UInt32.add_sub_cancel]
  have hahead : Ahead l.ts (l.ts + gap l.time now) ↔
      (now - l.time) / 1000000 % 2 ^ 32 * 48 < 2 ^ 31 := by
    rw [Ahead, hdiff, toNat_gap, le_max_iff, max_lt_iff, min_lt_iff]
    constructor
    · rintro ⟨-, h | h, -⟩
      · exact h
      · exact absurd h (by decide)
    · intro h
      exact ⟨.inr le_rfl, .inl h, by decide⟩
  rw [map_handover]
  simpa using hahead

/-- After twelve and a half hours of silence the timestamp has gone backwards. -/
theorem behind : ¬ ∀ (l : Last) (inSeq : UInt64) (inTs : UInt32) (marker : Bool) (now : Instant),
    l.time ≤ now →
      ∃ out ∈ (map (some l) none inSeq inTs marker now).2.2, Ahead l.ts out.2.1 := by
  intro h
  obtain ⟨out, hout, hahead⟩ := h ⟨1, 0, 0⟩ 5 123 false 45000000000000 (Nat.zero_le _)
  have hts : out = (2, 2160000000, true) := by
    refine Option.some.inj (hout.symm.trans ?_)
    decide +kernel
  rw [hts] at hahead
  exact absurd hahead.2 (by decide)

end VoiceHub.Sfu.Audio.SlotStream
