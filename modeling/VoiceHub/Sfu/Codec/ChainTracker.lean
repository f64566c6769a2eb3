import Mathlib
import VoiceHub.Lib.Bitmap
import VoiceHub.Lib.Transducer
import VoiceHub.Sfu.Dd.Parser

/-!
The chain-integrity gate of one subscriber.

A frame names its predecessor in the chain by a distance. The tracker keeps the frames it let
through in a ring of 256 bits, in which letting a frame through also expires the slot 128
before it. A slot stands for all the frame numbers that are equal modulo 256, and a slot whose
turn to expire is skipped keeps its bit.
-/

namespace VoiceHub.Sfu.Codec

open VoiceHub.Lib
open VoiceHub.Sfu.Dd (Descriptor)

structure ChainTracker where
  chain : ℕ
  seen : Bitmap 32
  broken : Bool
  bootstrapped : Bool
  deriving DecidableEq

/-- The slot of a frame number: `fn_ & 0xff`. -/
def slot (f : UInt16) : ℕ := (f &&& 0xff).toNat

lemma slot_eq (f : UInt16) : slot f = f.toNat % 256 := by
  rw [slot, UInt16.toNat_and]
  exact Nat.and_two_pow_sub_one_eq_mod f.toNat 8

lemma slot_lt (f : UInt16) : slot f / 8 < 32 := by
  rw [slot_eq]
  omega

/-- `d.frame_number`, which has sixteen bits. -/
def frame (d : Descriptor) : UInt16 := UInt16.ofNat d.frameNumber

namespace ChainTracker

variable (t : ChainTracker)

def new (chain : ℕ) : ChainTracker := ⟨chain, .empty, false, false⟩

def reset : ChainTracker := { t with seen := .empty, broken := false, bootstrapped := false }

def setChain (chain : ℕ) : ChainTracker :=
  if chain ≠ t.chain then { t with chain := chain }.reset else t

def mark (f : UInt16) : ChainTracker :=
  { t with seen := (t.seen.clear (slot (f - 128)) (slot_lt _)).set (slot f) (slot_lt _) }

def wasSeen (f : UInt16) : Bool := t.seen.test (slot f) (slot_lt _)

/-- The predecessor a frame names in the tracker's chain, at `diff > 0` before it. -/
def predecessor (d : Descriptor) : Option UInt16 :=
  (d.chainDiffs[t.chain]?.filter (0 < ·)).map fun diff => frame d - UInt16.ofNat diff

/-- `allow`. -/
def allow (desc : Option Descriptor) : ChainTracker × Bool :=
  match desc with
  | none => (t, true)
  | some d =>
    let t := if d.attachesStructure || d.isKeyframe then t.reset else t
    if d.isKeyframe then ({ t with bootstrapped := true }.mark (frame d), true)
    -- attached mid-stream: drop until a keyframe
    else if !t.bootstrapped then ({ t with broken := true }, false)
    else if t.broken then (t, false)
    else if (t.predecessor d).any (!t.wasSeen ·) then ({ t with broken := true }, false)
    else (t.mark (frame d), true)

end ChainTracker

/-! ### What a run lets through -/

inductive Call
  | allow (desc : Option Descriptor)
  | setChain (chain : ℕ)

/-- A tracker, and the frames it let through since its last reset, latest first. -/
structure Run where
  tracker : ChainTracker
  sent : List UInt16

namespace Run

def start (chain : ℕ) : Run := ⟨.new chain, []⟩

/-- One call, and what `allow` returns. -/
def step (r : Run) : Call → Run × Option Bool
  | .setChain chain =>
    (⟨r.tracker.setChain chain, if chain ≠ r.tracker.chain then [] else r.sent⟩, none)
  | .allow none => (⟨(r.tracker.allow none).1, r.sent⟩, some (r.tracker.allow none).2)
  | .allow (some d) =>
    let (t, ok) := r.tracker.allow (some d)
    let kept := if d.attachesStructure || d.isKeyframe then [] else r.sent
    (⟨t, if ok then frame d :: kept else kept⟩, some ok)

/-- The run after some calls. -/
def after (chain : ℕ) (calls : List Call) : Run := Transducer.after step (start chain) calls

end Run

/-- The ring after the frames `sent`: of those in the slot of `f` or the slot that expires
with it, the last one is in the slot of `f`. -/
def shows (sent : List UInt16) (f : UInt16) : Bool :=
  (sent.find? fun m => m.toNat % 128 = f.toNat % 128).any fun m => m.toNat % 256 = f.toNat % 256

lemma shows_cons (m : UInt16) (sent : List UInt16) (f : UInt16) :
    shows (m :: sent) f =
      if m.toNat % 128 = f.toNat % 128 then decide (m.toNat % 256 = f.toNat % 256)
      else shows sent f := by
  unfold shows
  rw [List.find?_cons]
  split_ifs with h <;> simp [h]

namespace ChainTracker

variable {t : ChainTracker}

lemma wasSeen_mark (m f : UInt16) : (t.mark m).wasSeen f =
    if m.toNat % 128 = f.toNat % 128 then decide (m.toNat % 256 = f.toNat % 256)
    else t.wasSeen f := by
  have hexp : slot (m - 128) = (m.toNat + 128) % 256 := by
    rw [slot_eq, UInt16.toNat_sub]
    have : (128 : UInt16).toNat = 128 := rfl
    omega
  have hring : ∀ old : Bool, (decide (slot f = slot m) ||
      !decide (slot f = (m.toNat + 128) % 256) && old) =
      if m.toNat % 128 = f.toNat % 128 then decide (m.toNat % 256 = f.toNat % 256) else old := by
    intro old
    simp only [slot_eq]
    split_ifs with h
    · by_cases he : m.toNat % 256 = f.toNat % 256
      · simp [he]
      · have hc : f.toNat % 256 = (m.toNat + 128) % 256 := by omega
        have hn : f.toNat % 256 ≠ m.toNat % 256 := Ne.symm he
        rw [decide_eq_false hn, decide_eq_true hc, decide_eq_false he]
        rfl
    · have h1 : f.toNat % 256 ≠ m.toNat % 256 := by omega
      have h2 : f.toNat % 256 ≠ (m.toNat + 128) % 256 := by omega
      rw [decide_eq_false h1, decide_eq_false h2]
      simp
  rw [wasSeen, mark, Bitmap.test_set, Bitmap.test_clear, hexp]
  exact hring _

@[simp] lemma wasSeen_reset (f : UInt16) : t.reset.wasSeen f = false := Bitmap.test_empty _

end ChainTracker

/-- The ring is what the frames since the reset make of it. -/
def Shown (r : Run) : Prop := ∀ f, r.tracker.wasSeen f = shows r.sent f

lemma shown_start (chain : ℕ) : Shown (.start chain) := fun _ => Bitmap.test_empty _

lemma Shown.mark {t : ChainTracker} {sent : List UInt16} (h : Shown ⟨t, sent⟩) (m : UInt16) :
    Shown ⟨t.mark m, m :: sent⟩ := by
  intro f
  rw [ChainTracker.wasSeen_mark, shows_cons, h f]

lemma allow_cases (t : ChainTracker) (d : Descriptor) :
    ∃ t', t'.seen = (if d.attachesStructure || d.isKeyframe then t.reset else t).seen ∧
      (t.allow (some d) = (t', false) ∨ t.allow (some d) = (t'.mark (frame d), true)) := by
  unfold ChainTracker.allow
  dsimp only
  generalize (if d.attachesStructure || d.isKeyframe then t.reset else t) = t₀
  split_ifs
  · exact ⟨{ t₀ with bootstrapped := true }, rfl, .inr rfl⟩
  · exact ⟨{ t₀ with broken := true }, rfl, .inl rfl⟩
  · exact ⟨t₀, rfl, .inl rfl⟩
  · exact ⟨{ t₀ with broken := true }, rfl, .inl rfl⟩
  · exact ⟨t₀, rfl, .inr rfl⟩

lemma Shown.step {r : Run} (h : Shown r) (c : Call) : Shown (r.step c).1 := by
  cases c with
  | setChain chain =>
    simp only [Run.step, ChainTracker.setChain]
    split_ifs
    · exact fun _ => Bitmap.test_empty _
    · exact h
  | allow desc =>
    cases desc with
    | none => exact h
    | some d =>
      have hkept : ∀ t' : ChainTracker,
          t'.seen = (if d.attachesStructure || d.isKeyframe then r.tracker.reset
            else r.tracker).seen →
          Shown ⟨t', if d.attachesStructure || d.isKeyframe then [] else r.sent⟩ := by
        intro t' ht' f
        rw [ChainTracker.wasSeen, ht']
        split_ifs
        · exact Bitmap.test_empty _
        · exact h f
      obtain ⟨t', ht', ha | ha⟩ := allow_cases r.tracker d
      · rw [Run.step, ha]
        exact hkept t' ht'
      · rw [Run.step, ha]
        exact (hkept t' ht').mark _

lemma shown_after (chain : ℕ) (calls : List Call) : Shown (.after chain calls) :=
  Transducer.after_keeps (shown_start chain) (fun _ c h => h.step c) calls

/-! ### Soundness -/

/-- A frame that is let through, and is no keyframe, has its predecessor let through before. -/
def Sound (r : Run) : Call → Prop
  | .allow (some d) =>
    (r.tracker.allow (some d)).2 = true → d.isKeyframe = false →
      ∀ p ∈ r.tracker.predecessor d, p ∈ r.sent
  | _ => True

/-- No other frame is taken for the predecessor: where the gate is open for a frame and its
predecessor was not let through since the reset, the last frame let through that is the
predecessor modulo 128 is not the predecessor modulo 256. -/
def Unaliased (r : Run) : Call → Prop
  | .allow (some d) =>
    r.tracker.bootstrapped → r.tracker.broken = false → d.isKeyframe = false →
      d.attachesStructure = false →
      ∀ p ∈ r.tracker.predecessor d, p ∉ r.sent → shows r.sent p = false
  | _ => True

lemma allow_eq_true {t : ChainTracker} {d : Descriptor} (hk : d.isKeyframe = false) :
    (t.allow (some d)).2 = true ↔
      d.attachesStructure = false ∧ t.bootstrapped = true ∧ t.broken = false ∧
        ∀ p ∈ t.predecessor d, t.wasSeen p = true := by
  unfold ChainTracker.allow
  dsimp only
  rw [hk, Bool.or_false]
  cases d.attachesStructure with
  | true => simp [ChainTracker.reset]
  | false =>
    cases hb : t.bootstrapped with
    | false => simp [hb]
    | true =>
      cases hr : t.broken with
      | true => simp [hb, hr]
      | false =>
        cases hp : t.predecessor d with
        | none => simp [hb, hr, hp]
        | some p => cases hw : t.wasSeen p <;> simp [hb, hr, hp, hw]

lemma sound_iff_unaliased {r : Run} (h : Shown r) (c : Call) : Sound r c ↔ Unaliased r c := by
  match c with
  | .setChain _ | .allow none => exact Iff.rfl
  | .allow (some d) =>
    constructor
    · intro hs hboot hbroken hk ha p hp hn
      by_contra hshow
      refine hn (hs ((allow_eq_true hk).mpr ⟨ha, hboot, hbroken, fun q hq => ?_⟩) hk p hp)
      obtain rfl : q = p := Option.mem_unique hq hp
      rw [h q]
      exact Bool.eq_true_of_not_eq_false hshow
    · intro hu hallow hk p hp
      obtain ⟨ha, hboot, hbroken, hseen⟩ := (allow_eq_true hk).mp hallow
      by_contra hn
      have hfalse := hu hboot hbroken hk ha p hp hn
      rw [← h p, hseen p hp] at hfalse
      cases hfalse

/-- **Soundness of the gate, exactly when it holds**: every frame of a run that is let through
had its predecessor let through since the reset, just if no frame of the run finds another one
in its predecessor's place. -/
theorem sound_iff (chain : ℕ) (calls : List Call) :
    (∀ pre c, pre ++ [c] <+: calls → Sound (.after chain pre) c) ↔
      ∀ pre c, pre ++ [c] <+: calls → Unaliased (.after chain pre) c :=
  forall₃_congr fun pre c _ => sound_iff_unaliased (shown_after chain pre) c

/-- After a keyframe numbered 0, frame 257 is let through although 256 was lost. -/
theorem unsound_257 : ¬ ∀ (chain : ℕ) (calls : List Call) (pre : List Call) (c : Call),
    pre ++ [c] <+: calls → Sound (.after chain pre) c := by
  intro h
  have hs := h 0 [.allow (some ⟨0, 0, true, false, []⟩), .allow (some ⟨257, 0, false, false, [1]⟩)]
    [.allow (some ⟨0, 0, true, false, []⟩)] (.allow (some ⟨257, 0, false, false, [1]⟩)) (by simp)
  have hmem : (256 : UInt16) ∈ (Run.after 0 [.allow (some ⟨0, 0, true, false, []⟩)]).sent :=
    hs (by decide +kernel) rfl 256 (by decide +kernel)
  revert hmem
  decide +kernel

/-! ### No spurious refusal -/

/-- Some unwrapped numbers of the two frames are less than 128 apart. -/
def Near (p m : UInt16) : Prop :=
  ∃ a b : ℤ, a % 65536 = p.toNat ∧ b % 65536 = m.toNat ∧ |a - b| < 128

/-- Frames let through later that are near a frame leave it in the ring. -/
lemma shows_near {p : UInt16} {later earlier : List UInt16} (h : ∀ m ∈ later, Near p m) :
    shows (later ++ p :: earlier) p = true := by
  induction later with
  | nil => rw [List.nil_append, shows_cons, if_pos rfl, decide_eq_true rfl]
  | cons m later ih =>
    rw [List.cons_append, shows_cons]
    split_ifs with hm
    · obtain ⟨a, b, ha, hb, hab⟩ := h m List.mem_cons_self
      rw [abs_lt] at hab
      -- two numbers less than 128 apart that are equal modulo 128 are equal
      have heq : a = b := by omega
      have hmp : m.toNat = p.toNat := by omega
      rw [hmp]
      exact decide_eq_true rfl
    · exact ih fun m' hm' => h m' (List.mem_cons_of_mem m hm')

/-- **A decodable stream is not frozen**: a frame is let through by an open gate when its
predecessor was let through, and after it only frames near it. -/
theorem never_freezes (chain : ℕ) (calls : List Call) (d : Descriptor) (diff : ℕ)
    (p : UInt16) (later earlier : List UInt16)
    (hboot : (Run.after chain calls).tracker.bootstrapped = true)
    (hbroken : (Run.after chain calls).tracker.broken = false)
    (hstruct : d.attachesStructure = false)
    (hdiff : d.chainDiffs[(Run.after chain calls).tracker.chain]? = some diff)
    (hmin : 1 ≤ diff) (hp : p = frame d - UInt16.ofNat diff)
    (hsent : (Run.after chain calls).sent = later ++ p :: earlier)
    (hnear : ∀ m ∈ later, Near p m) :
    ((Run.after chain calls).tracker.allow (some d)).2 = true := by
  cases hk : d.isKeyframe with
  | true => simp [ChainTracker.allow, hk]
  | false =>
    refine (allow_eq_true hk).mpr ⟨hstruct, hboot, hbroken, fun q hq => ?_⟩
    have hpred : (Run.after chain calls).tracker.predecessor d = some p := by
      have hpos : decide (0 < diff) = true := decide_eq_true hmin
      rw [ChainTracker.predecessor, hdiff, Option.filter_some, if_pos hpos, hp]
      rfl
    obtain rfl : p = q := Option.some.inj (hpred.symm.trans hq)
    rw [shown_after chain calls p, hsent]
    exact shows_near hnear

/-- Across the wrap, with a late frame in between. -/
theorem never_freezes_wrapped :
    ((Run.after 0 [.allow (some ⟨65535, 0, true, false, []⟩),
      .allow (some ⟨0, 0, false, false, [1]⟩),
      .allow (some ⟨65534, 0, false, false, [0]⟩)]).tracker.allow
      (some ⟨1, 0, false, false, [1]⟩)).2 = true := by
  refine never_freezes 0 _ ⟨1, 0, false, false, [1]⟩ 1 0 [65534] [65535] (by decide +kernel)
    (by decide +kernel) rfl (by decide +kernel) (by decide) (by decide +kernel)
    (by decide +kernel) fun m hm => ?_
  obtain rfl := List.mem_singleton.mp hm
  exact ⟨65536, 65534, by decide, by decide, by decide⟩

end VoiceHub.Sfu.Codec
