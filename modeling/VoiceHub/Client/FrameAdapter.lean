import VoiceHub.Lib.RingBuffer
import VoiceHub.Lib.Transducer

/-!
The audio worklet's frames: quanta of 128 samples are gathered into frames of the denoiser's
size, and what it makes of them is given out in quanta again.

After `q` quanta the samples that are not in a whole frame yet are `128 q` modulo the frame
size. That is a multiple of the greatest common divisor, and every such multiple comes up, so
the delay that covers the largest is the smallest one that never runs out.
-/

namespace VoiceHub.Client.FrameAdapter

open VoiceHub.Lib VoiceHub.Lib.Transducer

def QUANTUM : ℕ := 128

def gcd (a b : ℕ) : ℕ := if _h : b = 0 then a else gcd b (a % b)
termination_by b
decreasing_by exact Nat.mod_lt _ (Nat.pos_of_ne_zero _h)

/-- `Math.ceil((frameSize - gcd(frameSize, QUANTUM)) / QUANTUM)` -/
def primeQuanta (frameSize : ℕ) : ℕ := (frameSize - gcd frameSize QUANTUM) ⌈/⌉ QUANTUM

/-- `processFrame`, which works in place and may keep a state. -/
structure Engine (S α : Type) where
  run : S → List α → S × List α
  length_run : ∀ s frame, (run s frame).2.length = frame.length

structure Adapter (S α : Type) where
  primeQuanta : ℕ
  frame : List α
  filled : ℕ
  /-- Processed samples awaiting output. -/
  ring : RingBuffer α
  quanta : ℕ
  engine : S

section Model

variable {S α : Type} (e : Engine S α) (zero : α) (F : ℕ)

/-- The constructor, with any number of quanta to prime with. -/
def Adapter.new (s : S) (prime : ℕ) : Adapter S α where
  primeQuanta := prime
  frame := .replicate F zero
  filled := 0
  ring := ⟨.replicate (F + 2 * QUANTUM) zero, 0, 0⟩
  quanta := 0
  engine := s

/-- Some samples are added to the frame, which is processed when it is full. -/
def Adapter.add (a : Adapter S α) (chunk : List α) : Adapter S α :=
  let frame := overwrite a.frame chunk a.filled
  let filled := a.filled + chunk.length
  if filled = F then
    let (engine, out) := e.run a.engine frame
    { a with frame := out, filled := 0, ring := a.ring.push out, engine }
  else { a with frame, filled }

/-- The loop over a quantum. A turn takes at least one sample. -/
def fill (input : List α) : (turns off : ℕ) → Adapter S α → Adapter S α
  | 0, _, a => a
  | turns + 1, off, a =>
    if off < QUANTUM then
      let n := min (QUANTUM - off) (F - a.filled)
      fill input turns (off + n) (a.add e F ((input.drop off).take n))
    else a

def fillQuantum (a : Adapter S α) (input : Vector α QUANTUM) : Adapter S α :=
  fill e F input.toList QUANTUM 0 a

def process (a : Adapter S α) (input : Vector α QUANTUM) : Adapter S α × List α :=
  let a := fillQuantum e F a input
  if a.quanta < a.primeQuanta then
    ({ a with quanta := a.quanta + 1 }, .replicate QUANTUM zero)
  else if a.ring.pending < QUANTUM then (a, .replicate QUANTUM zero)
  else
    let (out, ring) := a.ring.pop QUANTUM
    ({ a with ring }, out)

/-- A quantum that finds too few samples once it is done priming. -/
def Underrun (a : Adapter S α) (input : Vector α QUANTUM) : Prop :=
  ¬ (fillQuantum e F a input).quanta < (fillQuantum e F a input).primeQuanta ∧
    (fillQuantum e F a input).ring.pending < QUANTUM

/-! ### What comes out -/

/-- The first `k` frames of some samples, processed one after the other. -/
def Engine.frames (e : Engine S α) (F : ℕ) (s : S) (xs : List α) : ℕ → S × List α
  | 0 => (s, [])
  | k + 1 =>
    let r := e.run (e.frames F s xs k).1 ((xs.drop (k * F)).take F)
    (r.1, (e.frames F s xs k).2 ++ r.2)

/-- All whole frames. -/
def Engine.processed (s : S) (xs : List α) : List α := (e.frames F s xs (xs.length / F)).2

/-- The samples of some quanta. -/
def samples (inputs : List (Vector α QUANTUM)) : List α := inputs.flatMap Vector.toList

end Model

/-! ### Residues -/

section Residues

variable {F a : ℕ}

lemma gcd_eq (a b : ℕ) : gcd a b = Nat.gcd a b := by
  fun_induction gcd a b with
  | case1 a => exact (Nat.gcd_zero_right a).symm
  | case2 a b h ih => rw [ih, Nat.gcd_comm b, ← Nat.gcd_rec, Nat.gcd_comm]

lemma mod_le (hF : 0 < F) (q : ℕ) : a * q % F ≤ F - Nat.gcd F a := by
  have hlt : a * q % F < F := Nat.mod_lt _ hF
  have hdvd : Nat.gcd F a ∣ a * q % F :=
    (Nat.dvd_mod_iff (Nat.gcd_dvd_left F a)).mpr ((Nat.gcd_dvd_right F a).mul_right q)
  have hle := Nat.le_of_dvd (by omega) (Nat.dvd_sub (Nat.gcd_dvd_left F a) hdvd)
  omega

lemma exists_mod_eq (hF : 0 < F) (a least : ℕ) :
    ∃ q, least ≤ q ∧ a * q % F = F - Nat.gcd F a := by
  obtain ⟨q, hq⟩ : ∃ q, a * q % F = F - Nat.gcd F a := by
    rcases (Nat.gcd_le_left a hF).lt_or_eq with hlt | heq
    · obtain ⟨m, -, hm⟩ := Nat.exists_mul_mod_eq_gcd (n := a) (by rwa [Nat.gcd_comm])
      obtain ⟨k, hk⟩ := Nat.gcd_dvd_left F a
      have hg : 0 < Nat.gcd F a := Nat.gcd_pos_of_pos_left a hF
      -- as often as it takes to come back to a multiple of `F`, less once
      refine ⟨m * (k - 1), ?_⟩
      have hback : Nat.gcd F a * (k - 1) = F - Nat.gcd F a := by
        rw [Nat.mul_sub, ← hk, Nat.mul_one]
      rw [← Nat.mul_assoc, Nat.mul_mod, hm, Nat.gcd_comm a, ← Nat.mod_eq_of_lt hlt, ← Nat.mul_mod,
        Nat.mod_eq_of_lt hlt, hback]
      exact Nat.mod_eq_of_lt (by omega)
    · exact ⟨0, by rw [heq, Nat.mul_zero, Nat.zero_mod, Nat.sub_self]⟩
  refine ⟨q + F * least, Nat.le_add_left_of_le (Nat.le_mul_of_pos_left least hF), ?_⟩
  rw [Nat.mul_add, Nat.mul_left_comm, Nat.add_mul_mod_self_left, hq]

/-- The priming is enough just when it covers the largest residue. -/
lemma primeQuanta_le_iff (F P : ℕ) :
    primeQuanta F ≤ P ↔ F - Nat.gcd F QUANTUM ≤ QUANTUM * P := by
  rw [primeQuanta, gcd_eq, ceilDiv_le_iff_le_smul (by decide), smul_eq_mul]

lemma split_quanta {P q : ℕ} (h : P ≤ q) : QUANTUM * q = QUANTUM * P + QUANTUM * (q - P) := by
  rw [← Nat.mul_add, Nat.add_sub_cancel' h]

lemma primeQuanta_lt (F : ℕ) {P : ℕ} (h : P ≤ primeQuanta F) : QUANTUM * P < F + QUANTUM := by
  rcases Nat.eq_zero_or_pos P with rfl | hpos
  · exact Nat.lt_add_left F (by decide)
  · have hprev := (primeQuanta_le_iff F (P - 1)).not.mp (by omega)
    have hsucc : QUANTUM * P = QUANTUM * (P - 1) + QUANTUM := by
      rw [← Nat.mul_succ, Nat.succ_eq_add_one, Nat.sub_add_cancel hpos]
    omega

end Residues

section Frames

variable {S α : Type} {e : Engine S α} {F : ℕ} {s : S} {xs ys : List α} {j k m : ℕ}

lemma frames_append (h : k * F ≤ xs.length) (ys : List α) :
    e.frames F s (xs ++ ys) k = e.frames F s xs k := by
  induction k with
  | zero => rfl
  | succ k ih =>
    rw [Nat.succ_mul] at h
    rw [Engine.frames, Engine.frames, ih (by omega), List.drop_append_of_le_length (by omega),
      List.take_append_of_le_length (by rw [List.length_drop]; omega)]

lemma length_frames (h : k * F ≤ xs.length) : (e.frames F s xs k).2.length = k * F := by
  induction k with
  | zero => rw [Engine.frames, Nat.zero_mul]; rfl
  | succ k ih =>
    rw [Nat.succ_mul] at h ⊢
    rw [Engine.frames, List.length_append, ih (by omega), e.length_run, List.length_take,
      List.length_drop]
    omega

lemma frames_isPrefix (h : j ≤ k) : (e.frames F s xs j).2 <+: (e.frames F s xs k).2 := by
  induction h with
  | refl => exact List.prefix_rfl
  | step _ ih => exact ih.trans (List.prefix_append _ _)

lemma length_processed : (e.processed F s xs).length = xs.length / F * F :=
  length_frames (Nat.div_mul_le_self _ _)

lemma processed_isPrefix (xs ys : List α) : e.processed F s xs <+: e.processed F s (xs ++ ys) := by
  rw [Engine.processed, Engine.processed, ← frames_append (Nat.div_mul_le_self _ _) ys]
  refine frames_isPrefix (Nat.div_le_div_right ?_)
  rw [List.length_append]
  exact Nat.le_add_right _ _

/-! ### The frame and the ring -/

/-- What the adapter has made of the samples so far, of which `R` were given out. -/
structure Inv (e : Engine S α) (F : ℕ) (s : S) (a : Adapter S α) (xs : List α) (R : ℕ) : Prop where
  filled : a.filled = xs.length % F
  frame_length : a.frame.length = F
  frame : a.frame.take a.filled = xs.drop (xs.length / F * F)
  engine : a.engine = (e.frames F s xs (xs.length / F)).1
  ring : a.ring.Holds (F + 2 * QUANTUM) ((e.processed F s xs).drop R)
  read_le : R ≤ xs.length / F * F

variable {a : Adapter S α} {R : ℕ}

lemma div_add (hF : 0 < F) (hm : m < F) : (k * F + m) / F = k ∧ (k * F + m) % F = m := by
  rw [Nat.mul_comm, Nat.mul_add_div hF, Nat.div_eq_of_lt hm, Nat.mul_add_mod,
    Nat.mod_eq_of_lt hm]
  exact ⟨Nat.add_zero k, rfl⟩

/-- **A turn of the loop.** A frame that is full goes through the engine and into the ring. -/
lemma Inv.add (h : Inv e F s a xs R) (hF : 0 < F) (chunk : List α)
    (hchunk : a.filled + chunk.length ≤ F)
    (hroom : xs.length + chunk.length ≤ R + F + 2 * QUANTUM) :
    Inv e F s (a.add e F chunk) (xs ++ chunk) R := by
  have hlen : xs.length = xs.length / F * F + a.filled := by
    rw [h.filled, Nat.mul_comm]
    exact (Nat.div_add_mod _ _).symm
  generalize hk : xs.length / F = k at hlen
  have hframe := h.frame
  have hengine := h.engine
  have hring := h.ring
  have hread := h.read_le
  rw [hk] at hframe hengine hread
  have hwritten : (overwrite a.frame chunk a.filled).take (a.filled + chunk.length) =
      (xs ++ chunk).drop (k * F) := by
    have hfit : (a.frame.take a.filled ++ chunk).length = a.filled + chunk.length := by
      rw [List.length_append, List.length_take, h.frame_length]
      omega
    rw [overwrite, ← hfit, List.take_left, hframe, List.drop_append_of_le_length (by omega)]
  have hlength : (overwrite a.frame chunk a.filled).length = F := by
    rw [RingBuffer.length_overwrite (by rw [h.frame_length]; exact hchunk), h.frame_length]
  have hall : (xs ++ chunk).length = k * F + (a.filled + chunk.length) := by
    rw [List.length_append]
    omega
  rw [Adapter.add]
  dsimp only
  by_cases hfull : a.filled + chunk.length = F
  · have hdiv : (xs ++ chunk).length / F = k + 1 := by
      rw [hall, hfull, ← Nat.succ_mul, Nat.mul_div_cancel _ hF]
    have hmod : (xs ++ chunk).length % F = 0 := by
      rw [hall, hfull, ← Nat.succ_mul, Nat.mul_mod_left]
    have hout : overwrite a.frame chunk a.filled = ((xs ++ chunk).drop (k * F)).take F := by
      rw [← hwritten, hfull, List.take_of_length_le hlength.le,
        List.take_of_length_le hlength.le]
    have hframes : e.frames F s (xs ++ chunk) (k + 1) =
        ((e.run a.engine (overwrite a.frame chunk a.filled)).1,
          e.processed F s xs ++ (e.run a.engine (overwrite a.frame chunk a.filled)).2) := by
      rw [Engine.frames, frames_append (by omega), ← hout, ← hengine, Engine.processed, hk]
    have hprocessed : e.processed F s (xs ++ chunk) =
        e.processed F s xs ++ (e.run a.engine (overwrite a.frame chunk a.filled)).2 := by
      rw [Engine.processed, hdiv, hframes]
    have hcount : (e.processed F s xs).length = k * F := by rw [length_processed, hk]
    rw [if_pos hfull]
    refine ⟨hmod.symm, ?_, ?_, ?_, ?_, ?_⟩
    · rw [e.length_run, hlength]
    · rw [List.take_zero, hdiv, List.drop_eq_nil_of_le]
      rw [hall, hfull, Nat.succ_mul]
    · rw [hdiv, hframes]
    · rw [hprocessed, List.drop_append_of_le_length (by omega)]
      refine hring.push ?_
      rw [e.length_run, hlength, List.length_drop]
      omega
    · rw [hdiv, Nat.succ_mul]
      omega
  · obtain ⟨hdiv, hmod⟩ := div_add (k := k) hF (by omega : a.filled + chunk.length < F)
    rw [← hall] at hdiv hmod
    have hsame : e.frames F s (xs ++ chunk) k = e.frames F s xs k := frames_append (by omega) chunk
    have hprocessed : e.processed F s (xs ++ chunk) = e.processed F s xs := by
      rw [Engine.processed, Engine.processed, hdiv, hk, hsame]
    rw [if_neg hfull]
    refine ⟨hmod.symm, hlength, ?_, ?_, ?_, ?_⟩
    · rw [hdiv]
      exact hwritten
    · rw [hdiv, hsame]
      exact hengine
    · rw [hprocessed]
      exact hring
    · rw [hdiv]
      exact hread

@[simp] lemma add_quanta (a : Adapter S α) (chunk : List α) :
    (a.add e F chunk).quanta = a.quanta ∧ (a.add e F chunk).primeQuanta = a.primeQuanta := by
  rw [Adapter.add]
  dsimp only
  split_ifs <;> exact ⟨rfl, rfl⟩

lemma Inv.fill {input : List α} {turns off : ℕ} (hinput : input.length = QUANTUM)
    (hturns : QUANTUM ≤ off + turns) (hoff : off ≤ QUANTUM)
    (h : Inv e F s a (xs ++ input.take off) R) (hF : 0 < F)
    (hroom : xs.length ≤ R + F + QUANTUM) :
    Inv e F s (fill e F input turns off a) (xs ++ input) R ∧
      (fill e F input turns off a).quanta = a.quanta ∧
      (fill e F input turns off a).primeQuanta = a.primeQuanta := by
  induction turns generalizing off a with
  | zero =>
    rw [List.take_of_length_le (by omega)] at h
    exact ⟨h, rfl, rfl⟩
  | succ turns ih =>
    rw [FrameAdapter.fill]
    split_ifs with hlt
    · dsimp only
      have hfilled : a.filled < F := h.filled ▸ Nat.mod_lt _ hF
      generalize hn : min (QUANTUM - off) (F - a.filled) = n
      have hchunk : ((input.drop off).take n).length = n := by
        rw [List.length_take, List.length_drop]
        omega
      have htake : input.take off ++ (input.drop off).take n = input.take (off + n) :=
        List.take_add.symm
      have hadd := h.add hF ((input.drop off).take n) (by omega) (by
        rw [List.length_append, List.length_take, hchunk]
        omega)
      rw [List.append_assoc, htake] at hadd
      obtain ⟨hinv, hquanta, hprime⟩ := ih (by omega) (by omega) hadd
      exact ⟨hinv, hquanta.trans (add_quanta a _).1, hprime.trans (add_quanta a _).2⟩
    · rw [List.take_of_length_le (by omega)] at h
      exact ⟨h, rfl, rfl⟩

/-! ### Runs -/

/-- After `q` quanta, primed with `P`, without an underrun. -/
structure Running (e : Engine S α) (F : ℕ) (s : S) (P : ℕ) (a : Adapter S α) (xs : List α)
    (q : ℕ) : Prop where
  inv : Inv e F s a xs (QUANTUM * (q - P))
  length : xs.length = QUANTUM * q
  prime : a.primeQuanta = P
  quanta : a.quanta = min q P

variable {P q : ℕ} {zero : α}

lemma Running.new (hF : 0 < F) (s : S) (zero : α) (P : ℕ) :
    Running e F s P (.new zero F s P) [] 0 where
  inv := by
    have hcount : ([] : List α).length / F = 0 := Nat.zero_div F
    refine ⟨(Nat.zero_mod F).symm, List.length_replicate, List.drop_nil.symm, ?_, ?_, ?_⟩
    · rw [hcount]
      rfl
    · rw [Engine.processed, hcount, Nat.zero_sub, Nat.mul_zero]
      refine ⟨List.length_replicate, rfl, ?_, Nat.zero_le _, fun i hi => ?_⟩
      · exact Nat.add_pos_left hF _
      · exact absurd hi (Nat.not_lt_zero i)
    · rw [Nat.zero_sub, Nat.mul_zero]
      exact Nat.zero_le _
  length := rfl
  prime := rfl
  quanta := (Nat.zero_min P).symm

lemma Running.fill (h : Running e F s P a xs q) (hF : 0 < F) (hP : P ≤ primeQuanta F)
    (input : Vector α QUANTUM) :
    Inv e F s (fillQuantum e F a input) (xs ++ input.toList) (QUANTUM * (q - P)) ∧
      (fillQuantum e F a input).quanta = a.quanta ∧
      (fillQuantum e F a input).primeQuanta = a.primeQuanta := by
  have hinv := h.inv
  have hlength := h.length
  have hcover := primeQuanta_lt F hP
  have hroom : xs.length ≤ QUANTUM * (q - P) + F + QUANTUM := by
    rw [hlength]
    rcases Nat.le_total P q with hle | hle
    · have hsplit := split_quanta hle
      omega
    · have hmono : QUANTUM * q ≤ QUANTUM * P := Nat.mul_le_mul_left _ hle
      omega
  refine Inv.fill input.length_toList (Nat.zero_add _).ge (Nat.zero_le _) ?_ hF hroom
  rwa [List.take_zero, List.append_nil]

lemma Running.pending (h : Running e F s P a xs q) (hF : 0 < F) (hP : P ≤ primeQuanta F)
    (input : Vector α QUANTUM) :
    (fillQuantum e F a input).ring.pending + QUANTUM * (q - P) + QUANTUM * (q + 1) % F =
      QUANTUM * (q + 1) := by
  obtain ⟨hinv, -, -⟩ := h.fill hF hP input
  have hall : (xs ++ input.toList).length = QUANTUM * (q + 1) := by
    rw [List.length_append, h.length, input.length_toList, Nat.mul_succ]
  have hread := hinv.read_le
  rw [hinv.ring.pending, List.length_drop, length_processed, hall]
  rw [hall] at hread
  rw [Nat.sub_add_cancel hread, Nat.mul_comm]
  exact Nat.div_add_mod _ _

/-- **Underruns.** There is one when the samples in no whole frame are more than the delay. -/
lemma Running.underrun_iff (h : Running e F s P a xs q) (hF : 0 < F) (hP : P ≤ primeQuanta F)
    (input : Vector α QUANTUM) :
    Underrun e F a input ↔ P ≤ q ∧ QUANTUM * P < QUANTUM * (q + 1) % F := by
  obtain ⟨-, hquanta, hprime⟩ := h.fill hF hP input
  have hpending := h.pending hF hP input
  rw [Underrun, hquanta, hprime, h.quanta, h.prime]
  rcases Nat.lt_or_ge q P with hlt | hle
  · exact iff_of_false (fun hu => hu.1 (by omega)) (fun hu => absurd hu.1 (by omega))
  · have hsplit := split_quanta hle
    have hsucc : QUANTUM * (q + 1) = QUANTUM * q + QUANTUM := Nat.mul_succ _ _
    rw [and_iff_right (by omega : ¬ min q P < P), and_iff_right hle]
    omega

/-- **A quantum without an underrun**: the next samples of the delayed stream come out. -/
lemma Running.process (h : Running e F s P a xs q) (zero : α) (hF : 0 < F)
    (hP : P ≤ primeQuanta F) {input : Vector α QUANTUM} (hrun : ¬ Underrun e F a input) :
    Running e F s P (process e zero F a input).1 (xs ++ input.toList) (q + 1) ∧
      (process e zero F a input).2 = ((List.replicate (P * QUANTUM) zero ++
        e.processed F s (xs ++ input.toList)).drop (QUANTUM * q)).take QUANTUM := by
  obtain ⟨hinv, hquanta, hprime⟩ := h.fill hF hP input
  have hall : (xs ++ input.toList).length = QUANTUM * (q + 1) := by
    rw [List.length_append, h.length, input.length_toList, Nat.mul_succ]
  rw [FrameAdapter.process]
  dsimp only
  rcases Nat.lt_or_ge q P with hlt | hle
  -- priming
  · have hwait : (fillQuantum e F a input).quanta < (fillQuantum e F a input).primeQuanta := by
      rw [hquanta, hprime, h.quanta, h.prime]
      omega
    have hnone : q + 1 - P = q - P := by omega
    rw [if_pos hwait]
    refine ⟨⟨?_, hall, hprime.trans h.prime, ?_⟩, ?_⟩
    · rw [hnone]
      exact ⟨hinv.filled, hinv.frame_length, hinv.frame, hinv.engine, hinv.ring, hinv.read_le⟩
    · dsimp only
      rw [hquanta, h.quanta]
      omega
    · have hroom : QUANTUM * q + QUANTUM ≤ P * QUANTUM := by
        rw [← Nat.mul_succ, Nat.mul_comm]
        exact Nat.mul_le_mul_right _ hlt
      rw [List.drop_append_of_le_length (by rw [List.length_replicate]; omega), List.drop_replicate,
        List.take_append_of_le_length (by rw [List.length_replicate]; omega), List.take_replicate,
        min_eq_left (by omega)]
  · have hdone : ¬ (fillQuantum e F a input).quanta < (fillQuantum e F a input).primeQuanta := by
      rw [hquanta, hprime, h.quanta, h.prime]
      omega
    have hthere : ¬ (fillQuantum e F a input).ring.pending < QUANTUM := fun hfew =>
      hrun ⟨hdone, hfew⟩
    have hpending := hinv.ring.pending
    rw [List.length_drop] at hpending
    obtain ⟨hout, hrest⟩ := hinv.ring.pop (n := QUANTUM) (by rw [List.length_drop]; omega)
    have hnext : QUANTUM * (q + 1 - P) = QUANTUM * (q - P) + QUANTUM := by
      rw [← Nat.mul_succ, Nat.succ_eq_add_one]
      congr 1
      omega
    rw [if_neg hdone, if_neg hthere]
    refine ⟨⟨?_, hall, hprime.trans h.prime, ?_⟩, ?_⟩
    · rw [hnext]
      refine ⟨hinv.filled, hinv.frame_length, hinv.frame, hinv.engine, ?_, ?_⟩
      · rw [List.drop_drop] at hrest
        exact hrest
      · have hread := hinv.read_le
        have hcount : (e.processed F s (xs ++ input.toList)).length =
            (xs ++ input.toList).length / F * F := length_processed
        omega
    · dsimp only
      rw [hquanta, h.quanta]
      omega
    · rw [split_quanta hle, Nat.mul_comm QUANTUM P, ← List.drop_drop, List.drop_left' List.length_replicate]
      exact hout

lemma Running.no_underrun (h : Running e F s (primeQuanta F) a xs q) (hF : 0 < F)
    (input : Vector α QUANTUM) : ¬ Underrun e F a input := by
  rw [h.underrun_iff hF le_rfl]
  rintro ⟨-, hlt⟩
  have hmax := mod_le (a := QUANTUM) hF (q + 1)
  have hcover := (primeQuanta_le_iff F _).mp le_rfl
  omega

lemma take_delayed {Z Y Y' : List α} (hY : Y <+: Y') {n : ℕ} (hn : n ≤ (Z ++ Y).length) :
    (Z ++ Y').take n = (Z ++ Y).take n := by
  obtain ⟨W, rfl⟩ := hY
  rw [← List.append_assoc, List.take_append_of_le_length hn]

lemma Running.given (h : Running e F s P a xs q) (zero : α) :
    QUANTUM * q ≤ (List.replicate (P * QUANTUM) zero ++ e.processed F s xs).length := by
  have hread := h.inv.read_le
  rw [List.length_append, List.length_replicate, length_processed, Nat.mul_comm P]
  rcases Nat.le_total P q with hle | hle
  · have hsplit := split_quanta hle
    omega
  · have hmono : QUANTUM * q ≤ QUANTUM * P := Nat.mul_le_mul_left _ hle
    omega

/-- **A run without underruns** gives out the delayed stream. -/
lemma running_run (e : Engine S α) (s : S) (zero : α) (hF : 0 < F) (hP : P ≤ primeQuanta F)
    (inputs : List (Vector α QUANTUM))
    (hrun : ∀ pre input, pre ++ [input] <+: inputs →
      Running e F s P (after (FrameAdapter.process e zero F) (.new zero F s P) pre)
        (samples pre) pre.length →
      ¬ Underrun e F (after (FrameAdapter.process e zero F) (.new zero F s P) pre) input) :
    Running e F s P (after (FrameAdapter.process e zero F) (.new zero F s P) inputs)
        (samples inputs) inputs.length ∧
      (outputs (FrameAdapter.process e zero F) (.new zero F s P) inputs).flatten =
        (List.replicate (P * QUANTUM) zero ++ e.processed F s (samples inputs)).take
          (QUANTUM * inputs.length) := by
  induction inputs using List.reverseRecOn with
  | nil => exact ⟨.new hF s zero P, rfl⟩
  | append_singleton inputs input ih =>
    obtain ⟨hrunning, hout⟩ := ih fun pre i hpre =>
      hrun pre i (hpre.trans (List.prefix_append _ _))
    obtain ⟨hnext, hlast⟩ := hrunning.process zero hF hP
      (hrun inputs input List.prefix_rfl hrunning)
    have hsamples : samples (inputs ++ [input]) = samples inputs ++ input.toList := by
      rw [samples, List.flatMap_append, List.flatMap_singleton]
      rfl
    rw [after_append, after_cons, after_nil, outputs_append, List.flatten_append, hsamples,
      List.length_append, List.length_singleton]
    refine ⟨hnext, ?_⟩
    have hsame := take_delayed (Z := List.replicate (P * QUANTUM) zero)
      (processed_isPrefix (e := e) (F := F) (s := s) (samples inputs) input.toList)
      (hrunning.given zero)
    rw [hout, ← hsame, Nat.mul_succ, List.take_add]
    refine congrArg _ ?_
    rw [outputs, outputs, List.flatten_cons, List.flatten_nil, List.append_nil, hlast]

lemma exists_underrun (e : Engine S α) (zero : α) (hF : 0 < F) (s : S) (hP : P < primeQuanta F) :
    ∃ pre input, Underrun e F (after (FrameAdapter.process e zero F) (.new zero F s P) pre)
      input := by
  obtain ⟨q, hq, hmod⟩ := exists_mod_eq hF QUANTUM (P + 1)
  have hshort := (primeQuanta_le_iff F P).not.mp (not_le.mpr hP)
  by_contra hnone
  have hrun (pre : List (Vector α QUANTUM)) (input : Vector α QUANTUM) :
      ¬ Underrun e F (after (FrameAdapter.process e zero F) (.new zero F s P) pre) input :=
    fun hu => hnone ⟨pre, input, hu⟩
  obtain ⟨hrunning, -⟩ := running_run e s zero hF hP.le
    (List.replicate (q - 1) (Vector.replicate QUANTUM zero)) fun pre input _ _ => hrun pre input
  rw [List.length_replicate] at hrunning
  refine hrun _ (Vector.replicate QUANTUM zero)
    ((hrunning.underrun_iff hF hP.le _).mpr ⟨by omega, ?_⟩)
  rw [Nat.sub_add_cancel (by omega), hmod]
  omega

end Frames

/-- **The adapter is a pure delay.** What comes out is the priming, in zeros, and then the
processed frames, with no sample lost, repeated or out of order. The ring has room for all that
is pushed, and the priming is the smallest without an underrun. -/
theorem pure_delay {S α : Type} (e : Engine S α) (zero : α) {F : ℕ} (hF : 0 < F) (s : S)
    (inputs : List (Vector α QUANTUM)) :
    let start := Adapter.new zero F s
    let run := after (process e zero F) (start (primeQuanta F))
    (outputs (process e zero F) (start (primeQuanta F)) inputs).flatten <+:
        List.replicate (primeQuanta F * QUANTUM) zero ++ e.processed F s (samples inputs) ∧
      (outputs (process e zero F) (start (primeQuanta F)) inputs).flatten.length =
        QUANTUM * inputs.length ∧
      (∀ pre input, pre ++ [input] <+: inputs → ¬ Underrun e F (run pre) input ∧
        (fillQuantum e F (run pre) input).ring.pending ≤ F + 2 * QUANTUM) ∧
      ∀ P < primeQuanta F, ∃ pre input,
        Underrun e F (after (process e zero F) (start P) pre) input := by
  intro start run
  have hrunning (pre : List (Vector α QUANTUM)) :=
    running_run e s zero hF le_rfl pre
      fun _ input _ h => h.no_underrun hF input
  obtain ⟨hall, hout⟩ := hrunning inputs
  refine ⟨?_, ?_, fun pre input _ => ⟨(hrunning pre).1.no_underrun hF input, ?_⟩,
    fun P hP => exists_underrun e zero hF s hP⟩
  · rw [hout]
    exact List.take_prefix _ _
  · rw [hout, List.length_take, min_eq_left (hall.given zero)]
  · obtain ⟨hinv, -, -⟩ := (hrunning pre).1.fill hF le_rfl input
    rw [hinv.ring.pending]
    exact hinv.ring.fits

/-- An engine that turns the signs of every other frame. -/
def alternate : Engine Bool ℤ where
  run s frame := (!s, if s then frame.map (- ·) else frame)
  length_run s frame := by cases s <;> simp

def ramp : Vector ℤ QUANTUM := .ofFn fun i => i

/-- With frames of 480 samples eight quanta come out late, and a delay of three is too short. -/
theorem pure_delay_480 :
    let out := (outputs (process alternate 0 480) (.new 0 480 false (primeQuanta 480))
      (List.replicate 8 ramp)).flatten
    out <+: List.replicate (primeQuanta 480 * QUANTUM) 0 ++
      alternate.processed 480 false (samples (List.replicate 8 ramp)) ∧
      out.length = QUANTUM * 8 ∧
      ∃ pre input, Underrun alternate 480 (after (process alternate 0 480)
        (.new 0 480 false 3) pre) input := by
  obtain ⟨hout, hlength, -, hleast⟩ :=
    pure_delay alternate 0 (by decide : 0 < 480) false (List.replicate 8 ramp)
  exact ⟨hout, hlength,
    hleast 3 (not_le.mp ((primeQuanta_le_iff 480 3).not.mpr (by decide)))⟩

end VoiceHub.Client.FrameAdapter
