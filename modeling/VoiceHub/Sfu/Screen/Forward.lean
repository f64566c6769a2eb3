import Mathlib
import VoiceHub.Lib.Machine
import VoiceHub.Lib.Transducer
import VoiceHub.Sfu.Codec.ChainTracker
import VoiceHub.Sfu.Screen.LayerCtl

/-!
What one viewer of a screen share is sent.

Video passes the temporal layer and the chain gate, and is renumbered without gaps. A change
of the target layer is seen by its generation, at the next packet. Audio keeps its numbers, less
the rollovers before the first packet.
-/

namespace VoiceHub.Sfu.Screen

open VoiceHub.Lib VoiceHub.Lib.Machine
open VoiceHub.Sfu.Dd (Descriptor)
open VoiceHub.Sfu.Codec (ChainTracker)

abbrev Mid := String

abbrev Pt := UInt8

def PT_OPUS : Pt := 111

structure RtpPacket where
  seqNo : UInt64
  rtpTime : UInt32
  timestamp : ℕ
  marker : Bool
  payload : List UInt8
  deriving DecidableEq

/-- A packet handed to the viewer's connection. -/
structure RtpWrite where
  mid : Mid
  pt : Pt
  seqNo : UInt64
  rtpTime : UInt32
  timestamp : ℕ
  payload : List UInt8
  marker : Bool
  nackable : Bool
  deriving DecidableEq

structure SubForward where
  lastGen : Int32
  chain : ChainTracker
  seq : UInt64
  deriving DecidableEq

structure ScreenSub where
  videoMid : Mid
  audioMid : Option Mid
  videoPt : Pt
  layer : LayerCtl
  fwd : SubForward
  audioRocBase : Option UInt64
  deriving DecidableEq

/-- `target as usize`, which extends the sign. -/
def usize (target : Int32) : ℕ := (target.toInt % 2 ^ 64).toNat

lemma usize_inj {a b : Int32} (h : usize a = usize b) : a = b := by
  have ha := Int32.le_toInt a
  have ha' := Int32.toInt_lt a
  have hb := Int32.le_toInt b
  have hb' := Int32.toInt_lt b
  unfold usize at h
  apply Int32.toInt_inj.mp
  omega

namespace ScreenSub

/-- A subscription as `handle_screen_share_subscribe` builds it. -/
def new (videoMid : Mid) (audioMid : Option Mid) (videoPt : Pt) (target : Int32)
    (seq : UInt64) : ScreenSub :=
  ⟨videoMid, audioMid, videoPt, .new target, ⟨0, .new (usize target), seq⟩, none⟩

/-- `set_chain` once for a new generation. -/
def rearm (s : ScreenSub) : SubForward :=
  if s.layer.chainGen ≠ s.fwd.lastGen then
    { s.fwd with
      lastGen := s.layer.chainGen
      chain := s.fwd.chain.setChain (usize s.layer.targetTemp) }
  else s.fwd

/-- The chain after a packet, and whether the packet passes. -/
def gate (s : ScreenSub) (chain : ChainTracker) : Option Descriptor → ChainTracker × Bool
  | some d =>
    if s.layer.targetTemp.toInt < d.temporalLayer then (chain, false) else chain.allow (some d)
  | none => (chain, true)

def forwardVideo (s : ScreenSub) (pkt : RtpPacket) (desc : Option Descriptor) :
    ScreenSub × Option RtpWrite :=
  let f := s.rearm
  let (chain, pass) := s.gate f.chain desc
  if pass then
    let seq := f.seq + 1
    ({ s with fwd := { f with chain := chain, seq := seq } },
      some ⟨s.videoMid, s.videoPt, seq, pkt.rtpTime, pkt.timestamp, pkt.payload, pkt.marker, true⟩)
  else ({ s with fwd := { f with chain := chain } }, none)

/-- `rebase_roc`: the base from now on, and the number for the viewer. -/
def rebaseRoc (base : Option UInt64) (seq : UInt64) : UInt64 × UInt64 :=
  let b := base.getD (seq &&& ~~~0xffff)
  (b, if b ≤ seq then seq - b else 0)

def forwardAudio (s : ScreenSub) (pkt : RtpPacket) : ScreenSub × Option RtpWrite :=
  match s.audioMid with
  | none => (s, none)
  | some mid =>
    let (base, seq) := rebaseRoc s.audioRocBase pkt.seqNo
    ({ s with audioRocBase := some base },
      some ⟨mid, PT_OPUS, seq, pkt.rtpTime, pkt.timestamp, pkt.payload, pkt.marker, false⟩)

end ScreenSub

/-! ### The video gate -/

/-- A video packet that reached the viewer's subscription, the target in force, and the number
it was sent with, if it was. -/
structure Processed where
  desc : Option Descriptor
  target : Int32
  out : Option UInt64
  deriving DecidableEq

inductive VideoOp
  | packet (pkt : RtpPacket) (desc : Option Descriptor)
  | setTargetTemp (layer : Int32)
  deriving DecidableEq

/-- A subscription, the calls of `set_target_temp` since the last packet, and the packets so
far, the earliest first. -/
structure VideoRun where
  sub : ScreenSub
  calls : ℕ
  log : List Processed
  deriving DecidableEq

namespace VideoRun

def start (sub : ScreenSub) : VideoRun := ⟨sub, 0, []⟩

def step (r : VideoRun) : VideoOp → Option VideoRun
  | .packet pkt desc =>
    let (sub, out) := r.sub.forwardVideo pkt desc
    some ⟨sub, 0, r.log ++ [⟨desc, r.sub.layer.targetTemp, out.map RtpWrite.seqNo⟩]⟩
  | .setTargetTemp layer =>
    some { r with
      sub := { r.sub with layer := r.sub.layer.setTargetTemp layer }
      calls := r.calls + 1 }

/-- The generation has not come round to the one of the last packet. -/
def Distinguished (r : VideoRun) : VideoOp → Prop
  | .packet .. => 2 ^ 32 ∣ r.calls → r.calls = 0
  | .setTargetTemp _ => True

instance (r : VideoRun) : ∀ op, Decidable (r.Distinguished op)
  | .packet .. => inferInstanceAs (Decidable (2 ^ 32 ∣ r.calls → r.calls = 0))
  | .setTargetTemp _ => inferInstanceAs (Decidable True)

end VideoRun

/-- A keyframe was sent, and from it on the target was one that `T` holds of. -/
def KeySince (T : Int32 → Prop) (log : List Processed) : Prop :=
  ∃ pre j mid, log = pre ++ j :: mid ∧ j.out.isSome ∧ (∃ k ∈ j.desc, k.isKeyframe = true) ∧
    ∀ y ∈ j :: mid, T y.target

/-- A packet that is sent lies within the target layer, and is a keyframe or follows one that
was sent under the same target. -/
def Admitted (earlier : List Processed) (x : Processed) : Prop :=
  x.out.isSome → ∀ d ∈ x.desc, (d.temporalLayer : ℤ) ≤ x.target.toInt ∧
    (d.isKeyframe = true ∨ KeySince (· = x.target) earlier)

/-- The numbers of the packets that were sent. -/
def numbers (log : List Processed) : List UInt64 := log.filterMap Processed.out

/-- **The law of the gate.** -/
structure Gated (seq : UInt64) (log : List Processed) : Prop where
  admitted : ∀ pre x post, log = pre ++ x :: post → Admitted pre x
  consecutive : numbers log =
    (List.range (numbers log).length).map fun k => seq + .ofNat (k + 1)

lemma KeySince.snoc {T : Int32 → Prop} {log : List Processed} {x : Processed}
    (h : KeySince T log) (hx : T x.target) : KeySince T (log ++ [x]) := by
  obtain ⟨pre, j, mid, rfl, hout, hkey, hT⟩ := h
  refine ⟨pre, j, mid ++ [x], by simp, hout, hkey, fun y hy => ?_⟩
  rw [← List.cons_append, List.mem_append, List.mem_singleton] at hy
  rcases hy with hy | rfl
  · exact hT y hy
  · exact hx

lemma KeySince.mono {T U : Int32 → Prop} {log : List Processed} (h : KeySince T log)
    (hTU : ∀ t, T t → U t) : KeySince U log := by
  obtain ⟨pre, j, mid, hlog, hout, hkey, hT⟩ := h
  exact ⟨pre, j, mid, hlog, hout, hkey, fun y hy => hTU _ (hT y hy)⟩

/-- What a run keeps. -/
structure Armed (seq : UInt64) (r : VideoRun) : Prop where
  gen : r.sub.layer.chainGen = r.sub.fwd.lastGen + .ofNat r.calls
  chain : r.calls = 0 → r.sub.fwd.chain.chain = usize r.sub.layer.targetTemp
  key : r.sub.fwd.chain.bootstrapped = true → KeySince (usize · = r.sub.fwd.chain.chain) r.log
  count : r.sub.fwd.seq = seq + .ofNat (numbers r.log).length
  gated : Gated seq r.log

lemma allow_spec (t : ChainTracker) (d : Descriptor) :
    (t.allow (some d)).1.chain = t.chain ∧
      ((t.allow (some d)).2 = true → d.isKeyframe = true ∨ t.bootstrapped = true) ∧
      ((t.allow (some d)).1.bootstrapped = true →
        t.bootstrapped = true ∨ (t.allow (some d)).2 = true ∧ d.isKeyframe = true) := by
  unfold ChainTracker.allow
  dsimp only
  cases hk : d.isKeyframe with
  | true => simp [ChainTracker.reset, ChainTracker.mark]
  | false =>
    rw [Bool.or_false]
    cases d.attachesStructure with
    | true => simp [ChainTracker.reset]
    | false =>
      cases hb : t.bootstrapped with
      | false => simp [hb]
      | true =>
        simp only [Bool.false_eq_true, if_false, hb, Bool.not_true]
        split_ifs <;> simp [ChainTracker.mark]

section

variable {s : ScreenSub} {chain : ChainTracker} {desc : Option Descriptor} {seq : UInt64}
  {r r' : VideoRun} {op : VideoOp}

lemma gate_spec :
    (s.gate chain desc).1.chain = chain.chain ∧
      ((s.gate chain desc).2 = true → ∀ d ∈ desc,
        (d.temporalLayer : ℤ) ≤ s.layer.targetTemp.toInt ∧
          (d.isKeyframe = true ∨ chain.bootstrapped = true)) ∧
      ((s.gate chain desc).1.bootstrapped = true → chain.bootstrapped = true ∨
        (s.gate chain desc).2 = true ∧ ∃ d ∈ desc, d.isKeyframe = true) := by
  cases desc with
  | none => exact ⟨rfl, fun _ d hd => (by cases hd), Or.inl⟩
  | some d =>
    obtain ⟨hc, hp, hb⟩ := allow_spec chain d
    unfold ScreenSub.gate
    dsimp only
    split_ifs with ht
    · exact ⟨rfl, fun h => (by cases h), Or.inl⟩
    · refine ⟨hc, ?_, fun h => (hb h).imp_right fun ⟨hp, hk⟩ => ⟨hp, d, rfl, hk⟩⟩
      rintro h d' hd'
      obtain rfl := Option.some.inj hd'
      exact ⟨not_lt.mp ht, hp h⟩

lemma setChain_chain (t : ChainTracker) (c : ℕ) : (t.setChain c).chain = c := by
  unfold ChainTracker.setChain
  split_ifs with h
  · rfl
  · exact (not_not.mp h).symm

lemma setChain_bootstrapped {t : ChainTracker} {c : ℕ}
    (h : (t.setChain c).bootstrapped = true) : t.bootstrapped = true ∧ t.chain = c := by
  unfold ChainTracker.setChain at h
  split_ifs at h with hc
  · cases h
  · exact ⟨h, (not_not.mp hc).symm⟩

lemma dvd_of_gen_eq {g : Int32} {n : ℕ} (h : g + .ofNat n = g) : 2 ^ 32 ∣ n := by
  have hzero : Int32.ofNat n = 0 := by
    apply (Int32.add_right_inj g).mp
    rw [h, Int32.add_zero]
  have hmod : (n : ℤ).bmod (2 ^ 32) = 0 := by
    have htoInt := congrArg Int32.toInt hzero
    rwa [Int32.toInt_ofNat'] at htoInt
  exact_mod_cast Int.dvd_of_bmod_eq_zero hmod

/-- At a packet the chain is the one of the target in force, and when it is open, a keyframe
was sent under this target. -/
lemma Armed.rearm (h : Armed seq r) (hd : 2 ^ 32 ∣ r.calls → r.calls = 0) :
    r.sub.rearm.chain.chain = usize r.sub.layer.targetTemp ∧
      (r.sub.rearm.chain.bootstrapped = true →
        KeySince (· = r.sub.layer.targetTemp) r.log) ∧
      r.sub.rearm.lastGen = r.sub.layer.chainGen ∧ r.sub.rearm.seq = r.sub.fwd.seq := by
  have hkey : r.sub.fwd.chain.bootstrapped = true →
      r.sub.fwd.chain.chain = usize r.sub.layer.targetTemp →
      KeySince (· = r.sub.layer.targetTemp) r.log := by
    intro hb hc
    exact (h.key hb).mono fun t ht => usize_inj (ht.trans hc)
  unfold ScreenSub.rearm
  split_ifs with hg
  · refine ⟨setChain_chain _ _, fun hb => ?_, rfl, rfl⟩
    obtain ⟨hb, hc⟩ := setChain_bootstrapped hb
    exact hkey hb hc
  · have hg := not_not.mp hg
    have hcalls : r.calls = 0 := hd (dvd_of_gen_eq (h.gen.symm.trans hg))
    exact ⟨h.chain hcalls, fun hb => hkey hb (h.chain hcalls), hg.symm, rfl⟩

lemma Gated.snoc {log : List Processed} {x : Processed} (h : Gated seq log)
    (hx : Admitted log x)
    (hout : ∀ n ∈ x.out, n = seq + .ofNat ((numbers log).length + 1)) :
    Gated seq (log ++ [x]) where
  admitted := by
    intro pre y post hlog
    rcases List.eq_nil_or_concat post with rfl | ⟨post, z, rfl⟩
    · obtain ⟨rfl, hy⟩ := List.append_inj' hlog rfl
      cases hy
      exact hx
    · rw [List.concat_eq_append, ← List.cons_append, ← List.append_assoc] at hlog
      exact h.admitted pre y post (List.append_inj' hlog rfl).1
  consecutive := by
    cases ho : x.out with
    | none =>
      have hnum : numbers (log ++ [x]) = numbers log := by simp [numbers, ho]
      rw [hnum]
      exact h.consecutive
    | some n =>
      have hnum : numbers (log ++ [x]) = numbers log ++ [n] := by simp [numbers, ho]
      rw [hnum, List.length_append, List.length_singleton, List.range_succ, List.map_append,
        ← h.consecutive, hout n ho]
      rfl

lemma Armed.step (h : Armed seq r) (hd : r.Distinguished op) (hs : r.step op = some r') :
    Armed seq r' := by
  cases op with
  | setTargetTemp layer =>
    cases hs
    refine ⟨?_, fun hc => absurd hc (Nat.succ_ne_zero _), h.key, h.count, h.gated⟩
    dsimp only [LayerCtl.setTargetTemp]
    rw [h.gen, Int32.add_assoc, Int32.ofNat_add]
    rfl
  | packet pkt desc =>
    obtain ⟨hchain, hboot, hgen, hseq⟩ := h.rearm hd
    obtain ⟨hc, hp, hb⟩ := @gate_spec r.sub r.sub.rearm.chain desc
    unfold VideoRun.step ScreenSub.forwardVideo at hs
    cases hgate : r.sub.gate r.sub.rearm.chain desc with
    | mk t pass =>
      rw [hgate] at hc hp hb
      dsimp only at hc hp hb
      have hadm (out : Option UInt64) (hout : out.isSome → pass = true) :
          Admitted r.log ⟨desc, r.sub.layer.targetTemp, out⟩ := by
        intro ho d hd
        obtain ⟨hlayer, hk⟩ := hp (hout ho) d hd
        exact ⟨hlayer, hk.imp_right hboot⟩
      have hopen (out : Option UInt64) (hout : pass = true → out.isSome) :
          t.bootstrapped = true →
          KeySince (usize · = t.chain) (r.log ++ [⟨desc, r.sub.layer.targetTemp, out⟩]) := by
        intro ht
        have htarget : usize r.sub.layer.targetTemp = t.chain := (hc.trans hchain).symm
        rcases hb ht with hbt | ⟨hpass, hk⟩
        · exact ((hboot hbt).mono fun u hu => hu ▸ htarget).snoc htarget
        · refine ⟨r.log, _, [], rfl, hout hpass, hk, fun y hy => ?_⟩
          obtain rfl := List.mem_singleton.mp hy
          exact htarget
      cases pass with
      | false =>
        simp only [hgate, Bool.false_eq_true, if_false] at hs
        obtain rfl := Option.some.inj hs
        refine ⟨?_, fun _ => hc.trans hchain, hopen none (fun hp => by cases hp), ?_,
          h.gated.snoc (hadm none (fun ho => by cases ho)) (fun n hn => by cases hn)⟩
        · rw [hgen]
          exact (Int32.add_zero _).symm
        · simpa [numbers, hseq] using h.count
      | true =>
        simp only [hgate, if_true] at hs
        obtain rfl := Option.some.inj hs
        have hnext : r.sub.rearm.seq + 1 = seq + .ofNat ((numbers r.log).length + 1) := by
          rw [hseq, h.count, UInt64.add_assoc, UInt64.ofNat_add]
          rfl
        refine ⟨?_, fun _ => hc.trans hchain, hopen (some _) (fun _ => rfl), ?_,
          h.gated.snoc (hadm (some _) (fun _ => rfl)) fun n hn => ?_⟩
        · rw [hgen]
          exact (Int32.add_zero _).symm
        · simpa [numbers] using hnext
        · obtain rfl := Option.some.inj hn
          exact hnext

end

/-- **The gate of a viewer's video**: in every run in which the calls of `set_target_temp`
between two packets never bring the generation round, what is sent keeps the law. -/
theorem gated {videoMid : Mid} {audioMid : Option Mid} {videoPt : Pt} {target : Int32}
    {seq : UInt64} {r : VideoRun}
    (hr : Reach VideoRun.step VideoRun.Distinguished
      (.start (.new videoMid audioMid videoPt target seq)) r) : Gated seq r.log := by
  have hstart : Armed seq (.start (.new videoMid audioMid videoPt target seq)) := by
    refine ⟨rfl, fun _ => rfl, fun h => (by cases h), (UInt64.add_zero _).symm, ?_, rfl⟩
    intro pre x post hlog
    simp [VideoRun.start] at hlog
  exact (hr.invariant hstart fun _ _ _ h hd hs => h.step hd hs).gated

/-- A frame of the lowest layer, and whether it is a keyframe. -/
def plain (key : Bool) : VideoOp :=
  .packet ⟨0, 0, 0, true, [0]⟩ (some ⟨0, 0, key, false, []⟩)

def viewer : VideoRun := .start (.new "v" none 45 2 7)

/-- A keyframe, another layer, a frame that is held back, and a keyframe that is not. -/
theorem gated_downgraded :
    ((run VideoRun.step viewer [plain true, .setTargetTemp 1, plain false, plain true]).getD
        viewer).log.map Processed.out = [some 8, none, some 9] ∧
      Gated 7 ((run VideoRun.step viewer
        [plain true, .setTargetTemp 1, plain false, plain true]).getD viewer).log :=
  ⟨by decide +kernel, @gated "v" none 45 2 7 _
    (Reach.of_isSome (by decide +kernel) (by decide +kernel))⟩

lemma run_setTargetTemp (layer : Int32) (n : ℕ) {r : VideoRun}
    (h : r.sub.layer.targetTemp = layer) :
    run VideoRun.step r (List.replicate n (.setTargetTemp layer)) =
      some ⟨{ r.sub with
          layer := { r.sub.layer with chainGen := r.sub.layer.chainGen + .ofNat n } },
        r.calls + n, r.log⟩ := by
  induction n generalizing r with
  | zero =>
    have hzero : r.sub.layer.chainGen + Int32.ofNat 0 = r.sub.layer.chainGen := Int32.add_zero _
    rw [hzero]
    rfl
  | succ n ih =>
    rw [List.replicate_succ, run]
    simp only [VideoRun.step, Option.bind_some]
    rw [ih rfl]
    simp only [LayerCtl.setTargetTemp, Option.some.injEq, VideoRun.mk.injEq, ScreenSub.mk.injEq,
      LayerCtl.mk.injEq, true_and, and_true]
    refine ⟨⟨h.symm, ?_⟩, by omega⟩
    rw [Int32.add_assoc, Nat.add_comm n 1, Int32.ofNat_add]
    rfl

/-- A keyframe under layer 2, then 2^32 calls that set layer 1: the next frame is sent. -/
theorem ungated : ¬ ∀ r : VideoRun, Reach VideoRun.step free viewer r → Gated 7 r.log := by
  intro h
  obtain ⟨r, hr⟩ : ∃ r, r = (run VideoRun.step viewer [plain true, .setTargetTemp 1]).getD viewer :=
    ⟨_, rfl⟩
  have hreach : Reach VideoRun.step free viewer r :=
    hr ▸ Reach.of_isSome (meets_free _ _) (by decide +kernel)
  have hround := run_setTargetTemp 1 (2 ^ 32 - 1) (r := r) (by rw [hr]; decide +kernel)
  have hlast := (hreach.of_run (meets_free _ _) hround).tail (plain false) trivial rfl
  have hlog := (h _ hlast).admitted [⟨some ⟨0, 0, true, false, []⟩, 2, some 8⟩]
    ⟨some ⟨0, 0, false, false, []⟩, 1, some 9⟩ [] (by rw [hr]; decide +kernel)
  obtain ⟨-, hkey | ⟨pre, j, mid, hj, -, -, hT⟩⟩ := hlog rfl _ rfl
  · cases hkey
  · have hmem : j ∈ pre ++ j :: mid := by simp
    rw [← hj] at hmem
    have htwo := hT j List.mem_cons_self
    rw [List.mem_singleton.mp hmem] at htwo
    exact absurd htwo (by decide)

/-! ### The numbers of the audio packets -/

open ScreenSub (rebaseRoc)

/-- The numbers under which the viewer is sent some audio packets, in the order in which they
come. -/
def heard (s : ScreenSub) (pkts : List RtpPacket) : List UInt64 :=
  (Transducer.outputs ScreenSub.forwardAudio s pkts).filterMap (Option.map RtpWrite.seqNo)

/-- The rollovers before the first packet. -/
def rocBase : List UInt64 → UInt64
  | [] => 0
  | seq :: _ => seq &&& ~~~0xffff

/-- The number a packet gets. -/
def rebased (base seq : UInt64) : UInt64 := (rebaseRoc (some base) seq).2

/-- Every number keeps its lower 16 bits, and different packets get different numbers. -/
def Distinct (seqs outs : List UInt64) : Prop :=
  List.Forall₂ (fun out seq => out.toNat % 2 ^ 16 = seq.toNat % 2 ^ 16) outs seqs ∧ outs.Nodup

/-- No packet is from before the rollover of the first one, or only one is, itself a rollover,
and the rollover of the first packet is not sent. -/
def NoneBefore (seqs : List UInt64) : Prop :=
  ∀ seq ∈ seqs, seq < rocBase seqs →
    seq.toNat % 2 ^ 16 = 0 ∧ ∀ seq' ∈ seqs, seq' ≤ rocBase seqs → seq' = seq

lemma noneBefore_of_le {seqs : List UInt64} (h : ∀ seq ∈ seqs, rocBase seqs ≤ seq) :
    NoneBefore seqs := fun seq hseq hlt => absurd (h seq hseq) (UInt64.not_le.mpr hlt)

lemma toNat_rollover (seq : UInt64) :
    (seq &&& ~~~0xffff).toNat = seq.toNat / 2 ^ 16 * 2 ^ 16 := by
  have hmask : (~~~0xffff : UInt64).toNat = (2 ^ 48 - 1) <<< 16 := by decide
  have hlt := seq.toNat_lt
  rw [UInt64.toNat_and, hmask, ← Nat.shiftRight_eq_div_pow, ← Nat.shiftLeft_eq]
  apply Nat.eq_of_testBit_eq
  intro i
  rw [Nat.testBit_and, Nat.testBit_shiftLeft, Nat.testBit_shiftLeft, Nat.testBit_shiftRight,
    Nat.testBit_two_pow_sub_one]
  by_cases hi : 16 ≤ i
  · have hback : 16 + (i - 16) = i := by omega
    rw [hback]
    by_cases h48 : i - 16 < 48
    · simp [hi, h48]
    · have hbit : seq.toNat.testBit i = false := by
        apply Nat.testBit_lt_two_pow
        calc seq.toNat < 2 ^ 64 := hlt
          _ ≤ 2 ^ i := Nat.pow_le_pow_right (by omega) (by omega)
      simp [hbit]
  · simp [hi]

lemma rocBase_mod (seqs : List UInt64) : (rocBase seqs).toNat % 2 ^ 16 = 0 := by
  cases seqs with
  | nil => rfl
  | cons seq seqs =>
    rw [rocBase, toNat_rollover]
    exact Nat.mul_mod_left _ _

lemma heard_of_base {s : ScreenSub} {mid : Mid} {base : UInt64} (hmid : s.audioMid = some mid)
    (hbase : s.audioRocBase = some base) (pkts : List RtpPacket) :
    heard s pkts = (pkts.map RtpPacket.seqNo).map (rebased base) := by
  induction pkts generalizing s with
  | nil => rfl
  | cons pkt pkts ih =>
    have hstep : s.forwardAudio pkt = ({ s with audioRocBase := some base },
        some ⟨mid, PT_OPUS, rebased base pkt.seqNo, pkt.rtpTime, pkt.timestamp, pkt.payload,
          pkt.marker, false⟩) := by
      simp [ScreenSub.forwardAudio, hmid, hbase, rebaseRoc, rebased]
    rw [heard, Transducer.outputs, hstep]
    exact congrArg (rebased base pkt.seqNo :: ·) (ih hmid rfl)

lemma heard_first {s : ScreenSub} {mid : Mid} (hmid : s.audioMid = some mid)
    (hbase : s.audioRocBase = none) (pkts : List RtpPacket) :
    heard s pkts =
      (pkts.map RtpPacket.seqNo).map (rebased (rocBase (pkts.map RtpPacket.seqNo))) := by
  cases pkts with
  | nil => rfl
  | cons pkt pkts =>
    have hfirst : heard s (pkt :: pkts) =
        heard { s with audioRocBase := some (pkt.seqNo &&& ~~~0xffff) } (pkt :: pkts) := by
      simp [heard, Transducer.outputs, ScreenSub.forwardAudio, hmid, hbase, rebaseRoc]
    rw [hfirst]
    exact heard_of_base (s := { s with audioRocBase := some _ }) hmid rfl _

lemma toNat_rebased (base seq : UInt64) : (rebased base seq).toNat = seq.toNat - base.toNat := by
  unfold rebased rebaseRoc
  dsimp only
  rw [Option.getD_some]
  split_ifs with h
  · exact UInt64.toNat_sub_of_le _ _ h
  · have hlt := UInt64.lt_iff_toNat_lt.mp (UInt64.not_le.mp h)
    rw [Nat.sub_eq_zero_of_le hlt.le]
    rfl

section

variable {base seq seq' : UInt64} (hb : base.toNat % 2 ^ 16 = 0)

include hb in
lemma rebased_mod_iff : (rebased base seq).toNat % 2 ^ 16 = seq.toNat % 2 ^ 16 ↔
    (seq < base → seq.toNat % 2 ^ 16 = 0) := by
  rw [toNat_rebased, UInt64.lt_iff_toNat_lt]
  omega

lemma rebased_eq_iff : rebased base seq = rebased base seq' ↔
    seq = seq' ∨ seq ≤ base ∧ seq' ≤ base := by
  rw [← UInt64.toNat_inj, ← UInt64.toNat_inj, toNat_rebased, toNat_rebased,
    UInt64.le_iff_toNat_le, UInt64.le_iff_toNat_le]
  omega

end

/-- **When the rebased numbers keep the packets apart**: exactly if no packet is from before
the rollover of the first one, up to a lone one in its place. -/
theorem distinct_iff (videoMid mid : Mid) (videoPt : Pt) (target : Int32) (seq : UInt64)
    (pkts : List RtpPacket) (hnd : (pkts.map RtpPacket.seqNo).Nodup) :
    Distinct (pkts.map RtpPacket.seqNo)
        (heard (.new videoMid (some mid) videoPt target seq) pkts) ↔
      NoneBefore (pkts.map RtpPacket.seqNo) := by
  rw [heard_first rfl rfl]
  generalize pkts.map RtpPacket.seqNo = seqs at hnd ⊢
  have hbase := rocBase_mod seqs
  rw [Distinct, List.forall₂_map_left_iff, List.forall₂_same, NoneBefore]
  constructor
  · rintro ⟨hmod, hdist⟩ x hx hlt
    refine ⟨(rebased_mod_iff hbase).mp (hmod x hx) hlt, fun y hy hle => ?_⟩
    exact List.inj_on_of_nodup_map hdist hy hx
      (rebased_eq_iff.mpr (.inr ⟨hle, UInt64.le_of_lt hlt⟩))
  · intro h
    refine ⟨fun x hx => (rebased_mod_iff hbase).mpr fun hlt => (h x hx hlt).1, ?_⟩
    refine hnd.map_on fun x hx y hy hxy => ?_
    rcases rebased_eq_iff.mp hxy with hxy | ⟨hxb, hyb⟩
    · exact hxy
    · rcases UInt64.lt_or_eq_of_le hxb with hlt | rfl
      · exact ((h x hx hlt).2 y hy hyb).symm
      · rcases UInt64.lt_or_eq_of_le hyb with hlt | rfl
        · exact (h y hy hlt).2 _ hx hxb
        · rfl

/-- An audio packet with nothing but a number. -/
def numbered (seq : UInt64) : RtpPacket := ⟨seq, 0, 0, true, []⟩

/-- The last packet before a rollover and two after it, out of order. -/
theorem distinct_iff_rollover :
    heard (.new "v" (some "a") 45 2 7) ([262143, 262146, 262145].map numbered) =
        [65535, 65538, 65537] ∧
      Distinct [262143, 262146, 262145] [65535, 65538, 65537] := by
  have hout : heard (.new "v" (some "a") 45 2 7) ([262143, 262146, 262145].map numbered) =
      [65535, 65538, 65537] := by decide +kernel
  have hle : ∀ seq ∈ ([262143, 262146, 262145] : List UInt64), 262143 &&& ~~~0xffff ≤ seq := by
    simp only [List.forall_mem_cons]
    exact ⟨by decide +kernel, by decide +kernel, by decide +kernel, fun _ h => by cases h⟩
  have h := (distinct_iff "v" "a" 45 2 7 ([262143, 262146, 262145].map numbered)
    (by decide +kernel)).mpr (noneBefore_of_le hle)
  rw [hout] at h
  exact ⟨hout, h⟩

/-- The first packet of a rollover, and after it the last one before: both are numbered 0. -/
theorem indistinct : ¬ ∀ (videoMid mid : Mid) (videoPt : Pt) (target : Int32) (seq : UInt64)
    (pkts : List RtpPacket), (pkts.map RtpPacket.seqNo).Nodup →
      Distinct (pkts.map RtpPacket.seqNo)
        (heard (.new videoMid (some mid) videoPt target seq) pkts) := by
  intro h
  have hout : heard (.new "v" (some "a") 45 2 7) ([65536, 65535].map numbered) = [0, 0] := by
    decide +kernel
  have hd := (h "v" "a" 45 2 7 ([65536, 65535].map numbered) (by decide +kernel)).2
  rw [hout] at hd
  exact absurd hd (by decide)

end VoiceHub.Sfu.Screen
