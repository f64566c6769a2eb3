import Mathlib
import VoiceHub.Lib.Machine

/-!
The temporal layer of one viewer of a screen share, and the loss hysteresis that drives it.

A streak of high or of low loss is remembered by the time of its first evaluation, with zero
for no streak. The layer changes only at the end of a streak that filled its window.
-/

namespace VoiceHub.Sfu.Screen

open VoiceHub.Lib.Machine

/-- Loss thresholds in per mille, windows in nanoseconds and the lowest layer. -/
structure ModePolicy where
  highLossPm : UInt32
  lowLossPm : UInt32
  highWindow : ℕ
  lowWindow : ℕ
  floorTemp : Int32

def SHARP : ModePolicy := ⟨50, 10, 2 * 10 ^ 9, 4 * 10 ^ 9, 0⟩

structure LayerCtl where
  targetTemp : Int32
  chainGen : Int32
  lossPerMille : UInt32
  highLossSince : Int64
  lowLossSince : Int64
  deriving DecidableEq

namespace LayerCtl

def new (target : Int32) : LayerCtl := ⟨target, 0, 0, 0, 0⟩

def setTargetTemp (l : LayerCtl) (layer : Int32) : LayerCtl :=
  { l with targetTemp := layer, chainGen := l.chainGen + 1 }

end LayerCtl

/-- `Duration::from_nanos((now_ns - since).max(0) as u64)` -/
def elapsed (nowNs since : Int64) : ℕ := (nowNs - since).toNatClampNeg

/-- `eval_auto_downgrade`, at `now` nanoseconds after the epoch. -/
def evalAutoDowngrade (l : LayerCtl) (now : ℕ) (p : ModePolicy) : LayerCtl × Bool :=
  let nowNs := Int64.ofNat now
  if p.highLossPm ≤ l.lossPerMille then
    let l := { l with lowLossSince := 0 }
    if l.targetTemp ≤ p.floorTemp then ({ l with highLossSince := 0 }, false)
    else if l.highLossSince = 0 then ({ l with highLossSince := nowNs }, false)
    else if elapsed nowNs l.highLossSince < p.highWindow then (l, false)
    else ({ l.setTargetTemp (l.targetTemp - 1) with highLossSince := 0 }, true)
  else if l.lossPerMille ≤ p.lowLossPm then
    let l := { l with highLossSince := 0 }
    if 2 ≤ l.targetTemp then ({ l with lowLossSince := 0 }, false)
    else if l.lowLossSince = 0 then ({ l with lowLossSince := nowNs }, false)
    else if elapsed nowNs l.lowLossSince < p.lowWindow then (l, false)
    else ({ l.setTargetTemp (l.targetTemp + 1) with lowLossSince := 0 }, true)
  -- the middle band: the next excursion must prove itself again
  else ({ l with highLossSince := 0, lowLossSince := 0 }, false)

/-! ### What one evaluation does -/

section

variable (l : LayerCtl) (now : ℕ) (p : ModePolicy)

lemma evalAutoDowngrade_target :
    (evalAutoDowngrade l now p).2 = false ∧
        (evalAutoDowngrade l now p).1.targetTemp = l.targetTemp ∧
        (evalAutoDowngrade l now p).1.chainGen = l.chainGen ∨
      (evalAutoDowngrade l now p).2 = true ∧
        (evalAutoDowngrade l now p).1.chainGen = l.chainGen + 1 ∧
        ((evalAutoDowngrade l now p).1.targetTemp = l.targetTemp - 1 ∧
            p.floorTemp < l.targetTemp ∧ p.highLossPm ≤ l.lossPerMille ∧ l.highLossSince ≠ 0 ∧
            p.highWindow ≤ elapsed (.ofNat now) l.highLossSince ∨
          (evalAutoDowngrade l now p).1.targetTemp = l.targetTemp + 1 ∧
            l.targetTemp < 2 ∧ l.lossPerMille ≤ p.lowLossPm ∧ l.lowLossSince ≠ 0 ∧
            p.lowWindow ≤ elapsed (.ofNat now) l.lowLossSince) := by
  unfold evalAutoDowngrade
  dsimp only
  split_ifs with hhigh hfloor hzero hwin hlow htop hzero hwin
  case neg =>
    exact .inr ⟨rfl, rfl, .inl ⟨rfl, Int32.not_le.mp hfloor, hhigh, hzero, not_lt.mp hwin⟩⟩
  case neg =>
    exact .inr ⟨rfl, rfl, .inr ⟨rfl, Int32.not_le.mp htop, hlow, hzero, not_lt.mp hwin⟩⟩
  all_goals exact .inl ⟨rfl, rfl, rfl⟩

lemma evalAutoDowngrade_high :
    (evalAutoDowngrade l now p).1.highLossSince = 0 ∨
      p.highLossPm ≤ l.lossPerMille ∧ (evalAutoDowngrade l now p).2 = false ∧
        ((evalAutoDowngrade l now p).1.highLossSince = .ofNat now ∨
          (evalAutoDowngrade l now p).1.highLossSince = l.highLossSince) := by
  unfold evalAutoDowngrade
  dsimp only
  split_ifs with hhigh hfloor hzero hwin hlow htop hzero hwin
  · exact .inl rfl
  · exact .inr ⟨hhigh, rfl, .inl rfl⟩
  · exact .inr ⟨hhigh, rfl, .inr rfl⟩
  all_goals exact .inl rfl

lemma evalAutoDowngrade_low :
    (evalAutoDowngrade l now p).1.lowLossSince = 0 ∨
      l.lossPerMille ≤ p.lowLossPm ∧ (evalAutoDowngrade l now p).2 = false ∧
        ((evalAutoDowngrade l now p).1.lowLossSince = .ofNat now ∨
          (evalAutoDowngrade l now p).1.lowLossSince = l.lowLossSince) := by
  unfold evalAutoDowngrade
  dsimp only
  split_ifs with hhigh hfloor hzero hwin hlow htop hzero hwin
  any_goals exact .inl rfl
  · exact .inr ⟨hlow, rfl, .inl rfl⟩
  · exact .inr ⟨hlow, rfl, .inr rfl⟩

end

lemma elapsed_le {t now : ℕ} (h : t ≤ now) : elapsed (.ofNat now) (.ofNat t) ≤ now - t := by
  have hsub : (Int64.ofNat now - Int64.ofNat t).toInt = ((now - t : ℕ) : ℤ).bmod (2 ^ 64) := by
    rw [Int64.toInt_sub, Int64.toInt_ofNat', Int64.toInt_ofNat', Nat.cast_sub h]
    simp
  have hle : ((now - t : ℕ) : ℤ).bmod (2 ^ 64) ≤ ((now - t : ℕ) : ℤ) := by
    rw [Int.bmod_eq_emod]
    split_ifs <;> omega
  have hnat : elapsed (.ofNat now) (.ofNat t) = (Int64.ofNat now - Int64.ofNat t).toInt.toNat := rfl
  rw [hnat, hsub]
  omega

/-! ### Runs -/

/-- An evaluation: its time, the loss it saw, and the state before and after it. -/
structure Eval where
  now : ℕ
  before : LayerCtl
  after : LayerCtl
  changed : Bool

def Eval.loss (e : Eval) : UInt32 := e.before.lossPerMille

inductive LayerOp
  /-- An egress report stores its loss. -/
  | sample (loss : UInt32)
  | eval (now : ℕ)

/-- A viewer's layer and all evaluations so far, the earliest first. -/
structure LayerRun where
  ctl : LayerCtl
  log : List Eval

namespace LayerRun

def start (target : Int32) : LayerRun := ⟨.new target, []⟩

def step (p : ModePolicy) (r : LayerRun) : LayerOp → Option LayerRun
  | .sample loss => some { r with ctl := { r.ctl with lossPerMille := loss } }
  | .eval now =>
    let (l, changed) := evalAutoDowngrade r.ctl now p
    some ⟨l, r.log ++ [⟨now, r.ctl, l, changed⟩]⟩

/-- The times of evaluations do not decrease. -/
def InOrder (r : LayerRun) : LayerOp → Prop
  | .eval now => ∀ e ∈ r.log, e.now ≤ now
  | .sample _ => True

instance (r : LayerRun) : ∀ op, Decidable (r.InOrder op)
  | .eval now => inferInstanceAs (Decidable (∀ e ∈ r.log, e.now ≤ now))
  | .sample _ => inferInstanceAs (Decidable True)

end LayerRun

/-- An unbroken streak up to the end of the log, begun at the time that `since` shows: every
evaluation saw a loss with `P` and found and left the layer at `target`. -/
def Streak (P : UInt32 → Prop) (log : List Eval) (since : Int64) (target : Int32) : Prop :=
  since ≠ 0 → ∃ pre f mid, log = pre ++ f :: mid ∧ Int64.ofNat f.now = since ∧
    ∀ x ∈ f :: mid, P x.loss ∧ x.before.targetTemp = target ∧ x.after.targetTemp = target

lemma Streak.of_zero {P : UInt32 → Prop} {log : List Eval} {since : Int64} {target : Int32}
    (h : since = 0) : Streak P log since target := fun hs => absurd h hs

lemma Streak.snoc {P : UInt32 → Prop} {log : List Eval} {since since' : Int64} {target : Int32}
    {e : Eval} (h : Streak P log since target) (hP : P e.loss)
    (hb : e.before.targetTemp = target) (ha : e.after.targetTemp = target)
    (hs : since' = .ofNat e.now ∨ since' = since) : Streak P (log ++ [e]) since' target := by
  intro hne
  rcases hs with rfl | rfl
  · refine ⟨log, e, [], rfl, rfl, fun x hx => ?_⟩
    obtain rfl := List.mem_singleton.mp hx
    exact ⟨hP, hb, ha⟩
  · obtain ⟨pre, f, mid, rfl, hf, hx⟩ := h hne
    refine ⟨pre, f, mid ++ [e], by simp, hf, fun x hmem => ?_⟩
    rw [← List.cons_append, List.mem_append, List.mem_singleton] at hmem
    rcases hmem with hmem | rfl
    · exact hx x hmem
    · exact ⟨hP, hb, ha⟩

/-- What the two timestamps stand for. -/
structure Streaks (p : ModePolicy) (r : LayerRun) : Prop where
  high : Streak (p.highLossPm ≤ ·) r.log r.ctl.highLossSince r.ctl.targetTemp
  low : Streak (· ≤ p.lowLossPm) r.log r.ctl.lowLossSince r.ctl.targetTemp

/-- What changes the layer in an evaluation: before it a streak filled the window. -/
def Sustained (P : UInt32 → Prop) (window : ℕ) (earlier : List Eval) (e : Eval) : Prop :=
  P e.loss ∧ ∃ pre f mid, earlier = pre ++ f :: mid ∧ f.now + window ≤ e.now ∧
    ∀ x ∈ f :: mid, P x.loss ∧ x.before.targetTemp = e.before.targetTemp ∧
      x.after.targetTemp = e.before.targetTemp

/-- What an evaluation may do to the layer. -/
inductive Reacts (p : ModePolicy) (earlier : List Eval) (e : Eval) : Prop
  | stays (hc : e.changed = false) (ht : e.after.targetTemp = e.before.targetTemp)
      (hg : e.after.chainGen = e.before.chainGen)
  | down (hc : e.changed = true) (ht : e.after.targetTemp.toInt = e.before.targetTemp.toInt - 1)
      (hg : e.after.chainGen = e.before.chainGen + 1)
      (hs : Sustained (p.highLossPm ≤ ·) p.highWindow earlier e)
  | up (hc : e.changed = true) (ht : e.after.targetTemp.toInt = e.before.targetTemp.toInt + 1)
      (hg : e.after.chainGen = e.before.chainGen + 1)
      (hs : Sustained (· ≤ p.lowLossPm) p.lowWindow earlier e)

section

variable {p : ModePolicy} {r r' : LayerRun} {op : LayerOp}

lemma Sustained.of_streak {P : UInt32 → Prop} {window : ℕ} {since : Int64}
    {log : List Eval} {e : Eval} (h : Streak P log since e.before.targetTemp) (hP : P e.loss)
    (hne : since ≠ 0) (hw : window ≤ elapsed (.ofNat e.now) since)
    (hord : ∀ x ∈ log, x.now ≤ e.now) : Sustained P window log e := by
  obtain ⟨pre, f, mid, hlog, hf, hx⟩ := h hne
  have hfe : f.now ≤ e.now := hord f (by simp [hlog])
  have hpast := elapsed_le hfe
  rw [hf] at hpast
  exact ⟨hP, pre, f, mid, hlog, by omega, hx⟩

lemma toInt_sub_one {a b : Int32} (h : a < b) : (b - 1).toInt = b.toInt - 1 := by
  have hlt := Int32.lt_iff_toInt_lt.mp h
  have hlo := Int32.le_toInt a
  have hhi := Int32.toInt_lt b
  rw [Int32.toInt_sub, Int32.toInt_one, Int.bmod_eq_of_le] <;> omega

lemma toInt_add_one {a b : Int32} (h : a < b) : (a + 1).toInt = a.toInt + 1 := by
  have hlt := Int32.lt_iff_toInt_lt.mp h
  have hlo := Int32.le_toInt a
  have hhi := Int32.toInt_lt b
  rw [Int32.toInt_add, Int32.toInt_one, Int.bmod_eq_of_le] <;> omega

/-- The record that one evaluation leaves. -/
def LayerRun.evaluated (p : ModePolicy) (r : LayerRun) (now : ℕ) : Eval :=
  ⟨now, r.ctl, (evalAutoDowngrade r.ctl now p).1, (evalAutoDowngrade r.ctl now p).2⟩

lemma Streaks.step (h : Streaks p r) (hs : r.step p op = some r') : Streaks p r' := by
  cases op with
  | sample loss =>
    cases hs
    exact ⟨h.high, h.low⟩
  | eval now =>
    obtain rfl : (⟨(r.evaluated p now).after, r.log ++ [r.evaluated p now]⟩ : LayerRun) = r' :=
      Option.some.inj hs
    -- a streak that did not end found the layer as it was before
    have htgt : (r.evaluated p now).changed = false →
        (r.evaluated p now).after.targetTemp = r.ctl.targetTemp := by
      intro hc
      rcases evalAutoDowngrade_target r.ctl now p with ⟨-, ht, -⟩ | ⟨ht, -⟩
      · exact ht
      · cases hc.symm.trans ht
    constructor
    · rcases evalAutoDowngrade_high r.ctl now p with hz | ⟨hloss, hc, hsince⟩
      · exact .of_zero hz
      · have ht := htgt hc
        exact (ht ▸ h.high).snoc hloss ht.symm rfl hsince
    · rcases evalAutoDowngrade_low r.ctl now p with hz | ⟨hloss, hc, hsince⟩
      · exact .of_zero hz
      · have ht := htgt hc
        exact (ht ▸ h.low).snoc hloss ht.symm rfl hsince

/-- An evaluation after an unbroken streak reacts as the law says. -/
lemma reacts_evaluated (h : Streaks p r) {now : ℕ} (hord : r.InOrder (.eval now)) :
    Reacts p r.log (r.evaluated p now) := by
  rcases evalAutoDowngrade_target r.ctl now p with
    ⟨hc, ht, hg⟩ | ⟨hc, hg, ⟨ht, hfloor, hloss, hne, hw⟩ | ⟨ht, htop, hloss, hne, hw⟩⟩
  · exact .stays hc ht hg
  · refine .down hc ?_ hg (.of_streak h.high hloss hne hw hord)
    exact (congrArg Int32.toInt ht).trans (toInt_sub_one hfloor)
  · refine .up hc ?_ hg (.of_streak h.low hloss hne hw hord)
    exact (congrArg Int32.toInt ht).trans (toInt_add_one htop)

/-- The layer keeps between its least start and the top one. -/
def Within (p : ModePolicy) (start t : Int32) : Prop :=
  min start.toInt p.floorTemp.toInt ≤ t.toInt ∧ t.toInt ≤ 2

lemma Within.step {start : Int32} (h : Within p start r.ctl.targetTemp)
    (hs : r.step p op = some r') : Within p start r'.ctl.targetTemp := by
  cases op with
  | sample loss => cases hs; exact h
  | eval now =>
    obtain rfl := Option.some.inj hs
    change Within p start (evalAutoDowngrade r.ctl now p).1.targetTemp
    rcases evalAutoDowngrade_target r.ctl now p with
      ⟨-, ht, -⟩ | ⟨-, -, ⟨ht, hfloor, -⟩ | ⟨ht, htop, -⟩⟩
    · rw [ht]
      exact h
    · have hlt := Int32.lt_iff_toInt_lt.mp hfloor
      obtain ⟨h1, h2⟩ := h
      constructor <;> rw [ht, toInt_sub_one hfloor] <;> omega
    · have hlt : _ < (2 : ℤ) := Int32.lt_iff_toInt_lt.mp htop
      obtain ⟨h1, h2⟩ := h
      constructor <;> rw [ht, toInt_add_one htop] <;> omega

/-- Every evaluation of the log reacted to the ones before it. -/
def AllReact (p : ModePolicy) (log : List Eval) : Prop :=
  ∀ pre e post, log = pre ++ e :: post → Reacts p pre e

lemma AllReact.snoc {log : List Eval} {e : Eval} (h : AllReact p log) (he : Reacts p log e) :
    AllReact p (log ++ [e]) := by
  intro pre x post hlog
  rcases List.eq_nil_or_concat post with rfl | ⟨post, y, rfl⟩
  · obtain ⟨rfl, hx⟩ := List.append_inj' hlog rfl
    cases hx
    exact he
  · rw [List.concat_eq_append, ← List.cons_append, ← List.append_assoc] at hlog
    exact h pre x post (List.append_inj' hlog rfl).1

end

/-- **The hysteresis only reacts to sustained loss**: in a run whose evaluations are in order
of time, the layer stays in its range, and it moves by one, with one new generation, only
at the end of a streak that filled its window and in which it did not move. -/
theorem only_sustained {p : ModePolicy} {start : Int32} (h2 : start.toInt ≤ 2) {r : LayerRun}
    (hr : Reach (LayerRun.step p) LayerRun.InOrder (.start start) r) :
    Within p start r.ctl.targetTemp ∧ AllReact p r.log := by
  suffices h : Within p start r.ctl.targetTemp ∧ Streaks p r ∧ AllReact p r.log from ⟨h.1, h.2.2⟩
  have hwithin : Within p start start := ⟨min_le_left _ _, h2⟩
  have hstart : AllReact p [] := fun pre e post hlog => by simp at hlog
  refine Reach.invariant (I := fun r => Within p start r.ctl.targetTemp ∧ Streaks p r ∧
    AllReact p r.log) ⟨hwithin, ⟨.of_zero rfl, .of_zero rfl⟩, hstart⟩ ?_ hr
  intro s op s' ⟨hw, hst, hall⟩ hord hs
  refine ⟨hw.step hs, hst.step hs, ?_⟩
  cases op with
  | sample loss => cases hs; exact hall
  | eval now =>
    obtain rfl := Option.some.inj hs
    exact hall.snoc (reacts_evaluated hst hord)

/-- Two seconds of high loss, with an evaluation in between that waits. -/
def highLoss : List LayerOp := [.sample 120, .eval 1, .eval (10 ^ 9), .eval (2 * 10 ^ 9 + 1)]

theorem only_sustained_highLoss :
    ((run (LayerRun.step SHARP) (.start 2) highLoss).getD (.start 2)).ctl.targetTemp = 1 ∧
      Within SHARP 2 1 ∧
      AllReact SHARP ((run (LayerRun.step SHARP) (.start 2) highLoss).getD (.start 2)).log := by
  have hone : ((run (LayerRun.step SHARP) (.start 2) highLoss).getD (.start 2)).ctl.targetTemp =
      1 := by decide +kernel
  have hrun : Reach (LayerRun.step SHARP) LayerRun.InOrder (.start 2)
      ((run (LayerRun.step SHARP) (.start 2) highLoss).getD (.start 2)) :=
    Reach.of_isSome (by decide +kernel) (by decide +kernel)
  have h := only_sustained (by decide) hrun
  rw [hone] at h
  exact ⟨hone, h⟩

end VoiceHub.Sfu.Screen
