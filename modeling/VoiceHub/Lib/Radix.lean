import Mathlib

/-!
Numbers in a fixed number of digits, the most significant first.

Where the digits suffice, the lexicographic order of the digits is the order of the numbers,
and bytes shifted in one by one spell the number that they are the digits of.
-/

namespace VoiceHub.Lib.Radix

section Digits

variable {b : ℕ} [NeZero b] {n u v : ℕ}

/-- The last `n` digits of a number. -/
def digits (b : ℕ) [NeZero b] : ℕ → ℕ → List (Fin b)
  | 0, _ => []
  | n + 1, v => digits b n (v / b) ++ [.ofNat b v]

@[simp] lemma length_digits (n v : ℕ) : (digits b n v).length = n := by
  induction n generalizing v with
  | zero => rfl
  | succ n ih => rw [digits, List.length_append, ih, List.length_singleton]

lemma append_lt_append {α : Type*} [LT α] {xs ys : List α} (hlen : xs.length = ys.length)
    (hlt : xs < ys) (s t : List α) : xs ++ s < ys ++ t := by
  induction hlt with
  | nil => cases hlen
  | cons _ ih => exact .cons (ih (Nat.succ.inj hlen))
  | rel h => exact .rel h

theorem digits_lt_digits (hlt : u < v) (hv : v < b ^ n) : digits b n u < digits b n v := by
  induction n generalizing u v with
  | zero =>
    rw [pow_zero] at hv
    omega
  | succ n ih =>
    have hdiv : v / b < b ^ n := Nat.div_lt_of_lt_mul (by rwa [← Nat.pow_succ'])
    rw [digits, digits]
    rcases (Nat.div_le_div_right hlt.le : u / b ≤ v / b).lt_or_eq with h | h
    · exact append_lt_append (by rw [length_digits, length_digits]) (ih h hdiv) _ _
    -- the numbers agree but for the last digit
    · have hmod : u % b < v % b := by
        have hu := Nat.div_add_mod u b
        have hv' := Nat.div_add_mod v b
        rw [h] at hu
        omega
      rw [h]
      exact List.append_left_lt (.rel hmod)

theorem digits_inj (hu : u < b ^ n) (hv : v < b ^ n) (h : digits b n u = digits b n v) :
    u = v := by
  rcases lt_trichotomy u v with hlt | heq | hgt
  · exact absurd (h ▸ digits_lt_digits hlt hv) (List.lt_irrefl _)
  · exact heq
  · exact absurd (h ▸ digits_lt_digits hgt hu) (List.lt_irrefl _)

end Digits

section Bytes

/-- The number that some bytes spell. -/
def ofBytes (bytes : List UInt8) : ℕ := Nat.ofDigits 256 (bytes.reverse.map UInt8.toNat)

variable {bytes cs : List UInt8}

@[simp] lemma ofBytes_nil : ofBytes [] = 0 := rfl

lemma ofBytes_cons (c : UInt8) (bytes : List UInt8) :
    ofBytes (c :: bytes) = c.toNat * 256 ^ bytes.length + ofBytes bytes := by
  rw [ofBytes, List.reverse_cons, List.map_append, Nat.ofDigits_append, List.map_singleton,
    Nat.ofDigits_singleton, List.length_map, List.length_reverse, ofBytes]
  ring

lemma digit_lt {bytes : List UInt8} : ∀ d ∈ bytes.map UInt8.toNat, d < 256 := by
  intro d hd
  obtain ⟨c, -, rfl⟩ := List.mem_map.mp hd
  exact c.toNat_lt

lemma ofBytes_lt (bytes : List UInt8) : ofBytes bytes < 256 ^ bytes.length := by
  have h := Nat.ofDigits_lt_base_pow_length (by decide : 1 < 256) (@digit_lt bytes.reverse)
  rwa [List.length_map, List.length_reverse] at h

lemma ofBytes_inj (hlen : bytes.length = cs.length) (h : ofBytes bytes = ofBytes cs) :
    bytes = cs := by
  have hdigits := Nat.ofDigits_inj_of_len_eq (by decide : 1 < 256)
    (by rw [List.length_map, List.length_map, List.length_reverse, List.length_reverse, hlen])
    digit_lt digit_lt h
  exact List.reverse_injective (List.map_injective_iff.mpr (fun _ _ => UInt8.toNat_inj.mp) hdigits)

/-- One byte shifted in. -/
def shiftIn {w : ℕ} (v : BitVec w) (c : UInt8) : BitVec w := (v <<< 8) ||| c.toBitVec.setWidth w

lemma toNat_shiftIn {w : ℕ} {v : BitVec w} (c : UInt8) (hw : 8 ≤ w)
    (hv : v.toNat * 256 + 256 ≤ 2 ^ w) : (shiftIn v c).toNat = v.toNat * 256 + c.toNat := by
  have hc : c.toBitVec.toNat < 2 ^ 8 := c.toNat_lt
  have hpow : 2 ^ 8 ≤ 2 ^ w := Nat.pow_le_pow_right (by decide) hw
  rw [shiftIn, BitVec.toNat_or, BitVec.toNat_shiftLeft, BitVec.toNat_setWidth,
    Nat.mod_eq_of_lt (hc.trans_le hpow), Nat.mod_eq_of_lt (by rw [Nat.shiftLeft_eq]; omega),
    ← Nat.shiftLeft_add_eq_or_of_lt hc, Nat.shiftLeft_eq]
  rfl

/-- What is shifted in fits where there is room for it. -/
theorem toNat_foldl_shiftIn {w : ℕ} {v : BitVec w} (hw : 8 ≤ w)
    (hv : (v.toNat + 1) * 256 ^ bytes.length ≤ 2 ^ w) :
    (bytes.foldl shiftIn v).toNat = v.toNat * 256 ^ bytes.length + ofBytes bytes := by
  induction bytes generalizing v with
  | nil => simp
  | cons c bytes ih =>
    have hpos : 1 ≤ 256 ^ bytes.length := Nat.one_le_pow _ _ (by decide)
    have hc : c.toNat < 256 := c.toNat_lt
    rw [List.length_cons, pow_succ'] at hv
    have hstep := toNat_shiftIn c hw (v := v) (by nlinarith)
    rw [List.foldl_cons, ih (by rw [hstep]; nlinarith), hstep, ofBytes_cons, List.length_cons,
      pow_succ']
    ring

end Bytes

end VoiceHub.Lib.Radix
