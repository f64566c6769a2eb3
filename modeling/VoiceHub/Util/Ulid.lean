import VoiceHub.Lib.Radix

/-!
Identifiers of chat messages, which clients sort by.

The 128 bits of a time and of ten random bytes, in 26 digits of five bits. Their letters are in
increasing order, so the identifiers are ordered as the numbers are.
-/

namespace VoiceHub.Util

open VoiceHub.Lib.Radix

def ALPHABET : Vector Char 32 :=
  #v['0', '1', '2', '3', '4', '5', '6', '7', '8', '9', 'A', 'B', 'C', 'D', 'E', 'F', 'G', 'H', 'J',
    'K', 'M', 'N', 'P', 'Q', 'R', 'S', 'T', 'V', 'W', 'X', 'Y', 'Z']

lemma lt_base (v : BitVec 128) : (v &&& 0x1f).toNat < 32 := by
  rw [BitVec.toNat_and]
  exact Nat.and_lt_two_pow (n := 5) _ (by decide)

/-- The loop that writes the letters, from place `i - 1` down to the first. -/
def letters : ℕ → BitVec 128 → List Char
  | 0, _ => []
  | i + 1, v => letters i (v >>> 5) ++ [ALPHABET.get ⟨(v &&& 0x1f).toNat, lt_base v⟩]

/-- `ulid` of a time in milliseconds, with its random bytes. -/
def ulid (ms : BitVec 128) (rand : Vector UInt8 10) : String :=
  let v := rand.toList.foldl shiftIn (ms &&& ((1#128 <<< 48) - 1))
  .ofList (letters 26 v)

lemma alphabet_lt {i j : Fin 32} (h : i < j) : ALPHABET.get i < ALPHABET.get j := by
  revert i j
  decide

lemma letters_eq (i : ℕ) (v : BitVec 128) :
    letters i v = (digits 32 i v.toNat).map ALPHABET.get := by
  induction i generalizing v with
  | zero => rfl
  | succ i ih =>
    have hshift : (v >>> 5).toNat = v.toNat / 32 := by
      rw [BitVec.toNat_ushiftRight, Nat.shiftRight_eq_div_pow]
    have hmask : (v &&& 0x1f).toNat = v.toNat % 32 := Nat.and_two_pow_sub_one_eq_mod v.toNat 5
    have hfin : (⟨(v &&& 0x1f).toNat, lt_base v⟩ : Fin 32) = .ofNat 32 v.toNat := Fin.ext hmask
    rw [letters, ih, digits, List.map_append, List.map_singleton, hshift, hfin]

/-- The number that is written. -/
def bits (ms : BitVec 128) (rand : Vector UInt8 10) : ℕ :=
  ms.toNat % 2 ^ 48 * 256 ^ 10 + ofBytes rand.toList

variable {ms ms' : BitVec 128} {rand rand' : Vector UInt8 10}

lemma toNat_foldl (ms : BitVec 128) (rand : Vector UInt8 10) :
    (rand.toList.foldl shiftIn (ms &&& ((1#128 <<< 48) - 1))).toNat = bits ms rand := by
  have hmask : (ms &&& ((1#128 <<< 48) - 1)).toNat = ms.toNat % 2 ^ 48 :=
    Nat.and_two_pow_sub_one_eq_mod ms.toNat 48
  have hlt : ms.toNat % 2 ^ 48 < 2 ^ 48 := Nat.mod_lt _ (by decide)
  have hroom : (ms.toNat % 2 ^ 48 + 1) * 256 ^ 10 ≤ 2 ^ 48 * 256 ^ 10 :=
    Nat.mul_le_mul_right _ hlt
  rw [toNat_foldl_shiftIn (by decide) (by rw [hmask, rand.length_toList]; exact hroom), hmask,
    rand.length_toList, bits]

lemma ulid_toList (ms : BitVec 128) (rand : Vector UInt8 10) :
    (ulid ms rand).toList = (digits 32 26 (bits ms rand)).map ALPHABET.get := by
  rw [ulid, String.toList_ofList, letters_eq, toNat_foldl]

lemma bits_lt (ms : BitVec 128) (rand : Vector UInt8 10) : bits ms rand < 2 ^ 128 := by
  have hlt : ms.toNat % 2 ^ 48 < 2 ^ 48 := Nat.mod_lt _ (by decide)
  have hrand := ofBytes_lt rand.toList
  rw [rand.length_toList] at hrand
  rw [bits]
  omega

lemma ulid_lt (h : bits ms rand < bits ms' rand') : ulid ms rand < ulid ms' rand' := by
  rw [String.lt_iff_toList_lt, ulid_toList, ulid_toList]
  refine List.map_lt (fun _ _ => alphabet_lt) (digits_lt_digits h ?_)
  exact (bits_lt ms' rand').trans_le (by norm_num)

lemma ulid_inj (h : ulid ms rand = ulid ms' rand') : bits ms rand = bits ms' rand' := by
  have hletters : Function.Injective ALPHABET.get :=
    StrictMono.injective fun _ _ => alphabet_lt
  have hlist := congrArg String.toList h
  rw [ulid_toList, ulid_toList] at hlist
  exact digits_inj ((bits_lt ms rand).trans_le (by norm_num))
    ((bits_lt ms' rand').trans_le (by norm_num)) (List.map_injective_iff.mpr hletters hlist)

lemma bits_lt_bits (h : ms.toNat % 2 ^ 48 < ms'.toNat % 2 ^ 48) :
    bits ms rand < bits ms' rand' := by
  have hrand := ofBytes_lt rand.toList
  rw [rand.length_toList] at hrand
  rw [bits, bits]
  omega

lemma bits_inj (h : bits ms rand = bits ms' rand') :
    ms.toNat % 2 ^ 48 = ms'.toNat % 2 ^ 48 ∧ rand = rand' := by
  have hrand := ofBytes_lt rand.toList
  have hrand' := ofBytes_lt rand'.toList
  rw [rand.length_toList] at hrand
  rw [rand'.length_toList] at hrand'
  rw [bits, bits] at h
  have hbytes := ofBytes_inj (by rw [rand.length_toList, rand'.length_toList])
    (by omega : ofBytes rand.toList = ofBytes rand'.toList)
  exact ⟨by omega, Vector.toList_inj.mp hbytes⟩

/-- **Identifiers are ordered by time.** They have 26 characters, those of two times or of two
random parts differ, and that of the smaller time is the smaller, whatever the random parts. -/
theorem ulid_embedding (ms ms' : BitVec 48) (rand rand' : Vector UInt8 10) :
    (ulid (ms.setWidth 128) rand).length = 26 ∧
    (ulid (ms.setWidth 128) rand = ulid (ms'.setWidth 128) rand' → ms = ms' ∧ rand = rand') ∧
    (ms < ms' → ulid (ms.setWidth 128) rand < ulid (ms'.setWidth 128) rand') := by
  have hwide (m : BitVec 48) : (m.setWidth 128).toNat % 2 ^ 48 = m.toNat := by
    rw [BitVec.toNat_setWidth]
    have hm : m.toNat < 2 ^ 48 := m.isLt
    omega
  refine ⟨?_, fun heq => ?_, fun hlt => ulid_lt (bits_lt_bits ?_)⟩
  · rw [← String.length_toList, ulid_toList, List.length_map, length_digits]
  · obtain ⟨htime, hrand⟩ := bits_inj (ulid_inj heq)
    rw [hwide, hwide] at htime
    exact ⟨BitVec.eq_of_toNat_eq htime, hrand⟩
  · rw [hwide, hwide]
    exact hlt

/-- One millisecond later, and all random bits the other way. -/
theorem ulid_embedding_next :
    ulid ((41#48).setWidth 128) (.replicate 10 0xff) <
      ulid ((42#48).setWidth 128) (.replicate 10 0) :=
  (ulid_embedding 41 42 (.replicate 10 0xff) (.replicate 10 0)).2.2 (by decide)

end VoiceHub.Util
