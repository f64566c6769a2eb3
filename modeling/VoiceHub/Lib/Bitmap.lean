import Mathlib

/-!
Sets of small numbers, one bit each, packed into bytes.
-/

namespace VoiceHub.Lib

/-- Bit `i % 8` of byte `i / 8` stands for `i`. -/
structure Bitmap (n : ℕ) where
  bytes : Vector UInt8 n
  deriving DecidableEq

namespace Bitmap

variable {n : ℕ} (b : Bitmap n) {i j : ℕ}

def empty : Bitmap n := ⟨Vector.replicate n 0⟩

/-- The byte with bit `i % 8` set. -/
def bit (i : ℕ) : UInt8 := 1 <<< UInt8.ofNat (i % 8)

/-- `bytes[i / 8] |= 1 << (i % 8)` -/
def set (i : ℕ) (h : i / 8 < n) : Bitmap n := ⟨b.bytes.set (i / 8) (b.bytes[i / 8] ||| bit i)⟩

/-- `bytes[i / 8] &= !(1 << (i % 8))` -/
def clear (i : ℕ) (h : i / 8 < n) : Bitmap n :=
  ⟨b.bytes.set (i / 8) (b.bytes[i / 8] &&& ~~~bit i)⟩

/-- `bytes[i / 8] & (1 << (i % 8)) != 0` -/
def test (i : ℕ) (h : i / 8 < n) : Bool := b.bytes[i / 8] &&& bit i ≠ 0

lemma toBitVec_bit (i : ℕ) : (bit i).toBitVec = BitVec.twoPow 8 (i % 8) := by
  have hi : i % 8 < 8 := Nat.mod_lt _ (by omega)
  unfold bit
  interval_cases i % 8 <;> rfl

lemma and_bit (x : UInt8) (i : ℕ) :
    decide (x &&& bit i ≠ 0) = x.toBitVec.getLsbD (i % 8) := by
  have hx : x &&& bit i = 0 ↔ x.toBitVec &&& BitVec.twoPow 8 (i % 8) = 0 := by
    rw [← toBitVec_bit, ← UInt8.toBitVec_inj]
    rfl
  have hi : ¬BitVec.twoPow 8 (i % 8) = 0#8 := by
    have h8 : i % 8 < 8 := Nat.mod_lt _ (by omega)
    interval_cases i % 8 <;> decide
  rw [BitVec.and_twoPow] at hx
  cases hb : x.toBitVec.getLsbD (i % 8) with
  | false => simpa [hb] using hx
  | true =>
    rw [hb, if_pos rfl] at hx
    simpa using fun h => hi (hx.mp h)

lemma test_eq (hi : i / 8 < n) :
    b.test i hi = (b.bytes[i / 8]).toBitVec.getLsbD (i % 8) := and_bit _ _

lemma test_set (hi : i / 8 < n) (hj : j / 8 < n) :
    (b.set i hi).test j hj = (decide (j = i) || b.test j hj) := by
  simp only [test_eq, set, Vector.getElem_set]
  split_ifs with h
  · have hji : j = i ↔ j % 8 = i % 8 := by omega
    have h8 : j % 8 < 8 := Nat.mod_lt _ (by omega)
    simp only [UInt8.toBitVec_or, toBitVec_bit, BitVec.getLsbD_or, BitVec.getLsbD_twoPow, h, hji]
    by_cases hm : i % 8 = j % 8
    · simp [hm, h8]
    · simp [hm, Ne.symm hm]
  · have hji : j ≠ i := by
      rintro rfl
      exact h rfl
    simp [hji]

lemma test_clear (hi : i / 8 < n) (hj : j / 8 < n) :
    (b.clear i hi).test j hj = (!decide (j = i) && b.test j hj) := by
  simp only [test_eq, clear, Vector.getElem_set]
  split_ifs with h
  · have hji : j = i ↔ j % 8 = i % 8 := by omega
    have h8 : j % 8 < 8 := Nat.mod_lt _ (by omega)
    simp only [UInt8.toBitVec_and, UInt8.toBitVec_not, toBitVec_bit, BitVec.getLsbD_and,
      BitVec.getLsbD_not, BitVec.getLsbD_twoPow, h, hji]
    by_cases hm : i % 8 = j % 8
    · simp [hm, h8]
    · simp [hm, Ne.symm hm, h8]
  · have hji : j ≠ i := by
      rintro rfl
      exact h rfl
    simp [hji]

@[simp] lemma test_empty (hi : i / 8 < n) : (empty : Bitmap n).test i hi = false := by
  simp [test_eq, empty]

end Bitmap

end VoiceHub.Lib
