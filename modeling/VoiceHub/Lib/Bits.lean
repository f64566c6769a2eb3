import Mathlib

/-!
Bits of numbers and of bytes, the first bit being the most significant.

A number below `2 ^ w` is read back from its `w` bits, a part of a byte's bits is what a
shift and a mask give, and the non-symmetric code `ns(n)` of the AV1 family spends one bit
less on the small values below `n`.
-/

namespace VoiceHub.Lib.Bits

/-- The `w` low bits of a number. -/
def toBits : ℕ → ℕ → List Bool
  | 0, _ => []
  | w + 1, v => v.testBit w :: toBits w v

/-- The number that some bits spell. -/
def ofBits : List Bool → ℕ
  | [] => 0
  | b :: bs => b.toNat * 2 ^ bs.length + ofBits bs

/-- The bits of a string of bytes. -/
def bytesBits (bytes : List UInt8) : List Bool := bytes.flatMap fun b => toBits 8 b.toNat

variable {w v n t off : ℕ} {bs cs : List Bool}

@[simp] lemma length_toBits (w v : ℕ) : (toBits w v).length = w := by
  induction w with
  | zero => rfl
  | succ w ih => simp [toBits, ih]

lemma ofBits_append (bs cs : List Bool) :
    ofBits (bs ++ cs) = ofBits bs * 2 ^ cs.length + ofBits cs := by
  induction bs with
  | nil => simp [ofBits]
  | cons b bs ih =>
    simp only [List.cons_append, ofBits, ih, List.length_append, pow_add]
    ring

lemma ofBits_lt (bs : List Bool) : ofBits bs < 2 ^ bs.length := by
  induction bs with
  | nil => simp [ofBits]
  | cons b bs ih =>
    have hb : b.toNat * 2 ^ bs.length ≤ 1 * 2 ^ bs.length :=
      Nat.mul_le_mul_right _ (Bool.toNat_le b)
    simp only [ofBits, List.length_cons, pow_succ]
    omega

lemma ofBits_toBits_mod (w v : ℕ) : ofBits (toBits w v) = v % 2 ^ w := by
  induction w with
  | zero => simp [toBits, ofBits, Nat.mod_one]
  | succ w ih =>
    rw [toBits, ofBits, length_toBits, ih, Nat.mod_pow_succ, Nat.testBit_eq_decide_div_mod_eq]
    have hlt : v / 2 ^ w % 2 < 2 := Nat.mod_lt _ (by omega)
    rcases (by omega : v / 2 ^ w % 2 = 0 ∨ v / 2 ^ w % 2 = 1) with h | h
    · simp [h]
    · simp [h]
      omega

lemma toBits_drop (w v off : ℕ) : (toBits w v).drop off = toBits (w - off) v := by
  induction w generalizing off with
  | zero => simp [toBits]
  | succ w ih =>
    cases off with
    | zero => rfl
    | succ off => simpa [toBits] using ih off

lemma toBits_take (h : t ≤ w) : (toBits w v).take t = toBits t (v / 2 ^ (w - t)) := by
  induction t generalizing w with
  | zero => simp [toBits]
  | succ t ih =>
    obtain ⟨w, rfl⟩ : ∃ w', w = w' + 1 := ⟨w - 1, by omega⟩
    have hw : w - t + t = w := by omega
    simp only [toBits, List.take_succ_cons, ih (w := w) (by omega), Nat.add_sub_add_right]
    rw [Nat.testBit_div_two_pow, Nat.add_comm, hw]

lemma shift_mask (h : off + t ≤ w) :
    (v >>> (w - off - t)) &&& (2 ^ t - 1) = ofBits (((toBits w v).drop off).take t) := by
  rw [toBits_drop, toBits_take (by omega), ofBits_toBits_mod, Nat.shiftRight_eq_div_pow,
    Nat.and_two_pow_sub_one_eq_mod]

lemma length_bytesBits (bytes : List UInt8) : (bytesBits bytes).length = 8 * bytes.length := by
  induction bytes with
  | nil => rfl
  | cons b bytes ih =>
    have hcons : bytesBits (b :: bytes) = toBits 8 b.toNat ++ bytesBits bytes := rfl
    rw [hcons, List.length_append, length_toBits, ih, List.length_cons]
    omega

lemma bytesBits_drop {bytes : List UInt8} {pos : ℕ} (h : pos < 8 * bytes.length) :
    (bytesBits bytes).drop pos =
      (toBits 8 (bytes.getD (pos / 8) 0).toNat).drop (pos % 8) ++
        (bytesBits bytes).drop (8 * (pos / 8 + 1)) := by
  induction bytes generalizing pos with
  | nil => simp at h
  | cons b bytes ih =>
    have hcons : bytesBits (b :: bytes) = toBits 8 b.toNat ++ bytesBits bytes := rfl
    rcases Nat.lt_or_ge pos 8 with hpos | hpos
    · have hdiv : pos / 8 = 0 := by omega
      have hmod : pos % 8 = pos := by omega
      rw [hdiv, hmod, hcons, List.drop_append_of_le_length (by simp; omega)]
      simp
    · obtain ⟨q, rfl⟩ : ∃ q, pos = 8 + q := ⟨pos - 8, by omega⟩
      have hdiv : (8 + q) / 8 = q / 8 + 1 := by omega
      have hmod : (8 + q) % 8 = q % 8 := by omega
      have hnext : 8 * (q / 8 + 1 + 1) = 8 + 8 * (q / 8 + 1) := by omega
      have hdrop (k : ℕ) :
          (toBits 8 b.toNat ++ bytesBits bytes).drop (8 + k) = (bytesBits bytes).drop k := by
        rw [← List.drop_drop, List.drop_left' (by simp)]
      have hlt : q < 8 * bytes.length := by
        simp only [List.length_cons] at h
        omega
      rw [hdiv, hmod, hnext, hcons, hdrop, hdrop, List.getD_cons_succ]
      exact ih hlt

/-! ## The code `ns(n)` -/

/-- The number of values of `ns(n)` that take one bit less. -/
def short (n : ℕ) : ℕ := 2 ^ n.size - n

/-- The code of `v` among the values below `n`. -/
def nsBits (n v : ℕ) : List Bool :=
  if v < short n then toBits (n.size - 1) v else toBits n.size (v + short n)

lemma add_short (n : ℕ) : n + short n = 2 ^ n.size := by
  have := Nat.lt_size_self n
  unfold short
  omega

lemma short_le (hn : 0 < n) : short n ≤ 2 ^ (n.size - 1) := by
  have hpos : 0 < n.size := Nat.size_pos.mpr hn
  have hle : 2 ^ (n.size - 1) ≤ n := Nat.lt_size.mp (by omega)
  have hpow : 2 ^ n.size = 2 ^ (n.size - 1) * 2 := by
    rw [← pow_succ, Nat.sub_add_cancel hpos]
  unfold short
  omega

/-- The long code of a value is the short code of a number that is no short value, and a bit. -/
lemma nsBits_long (hv : v < n) (h : short n ≤ v) :
    nsBits n v = toBits (n.size - 1) ((v + short n) / 2) ++ toBits 1 (v + short n) ∧
      short n ≤ (v + short n) / 2 ∧ (v + short n) / 2 < 2 ^ (n.size - 1) := by
  have hsum := add_short n
  obtain ⟨w, hw⟩ : ∃ w, n.size = w + 1 :=
    ⟨n.size - 1, by have : 0 < n.size := Nat.size_pos.mpr (by omega); omega⟩
  refine ⟨?_, by omega, ?_⟩
  · rw [nsBits, if_neg (by omega), hw]
    have htake := toBits_take (w := w + 1) (v := v + short n) (t := w) (by omega)
    have hdrop := toBits_drop (w + 1) (v + short n) w
    have hone : w + 1 - w = 1 := by omega
    rw [hone, pow_one] at htake
    rw [hone] at hdrop
    rw [Nat.add_sub_cancel, ← htake, ← hdrop, List.take_append_drop]
  · rw [hw] at hsum ⊢
    rw [pow_succ] at hsum
    simp only [Nat.add_sub_cancel]
    omega

end VoiceHub.Lib.Bits
