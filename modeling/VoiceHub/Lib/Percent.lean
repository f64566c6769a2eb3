import Mathlib

/-!
Percent-encoding: bytes written as text, those that are not kept as a percent sign and two
hexadecimal digits, and texts in UTF-8.

What is kept must be ASCII and no percent sign; then whatever was written is read back.
-/

namespace VoiceHub.Lib.Percent

/-! ### UTF-8 -/

/-- `s.as_bytes()`. -/
def utf8 (s : List Char) : List UInt8 := s.flatMap String.utf8EncodeChar

/-- `String::from_utf8(bytes).ok()`. -/
def fromUtf8 (bytes : List UInt8) : Option (List Char) :=
  bytes.toByteArray.utf8Decode?.map Array.toList

/-- The character of an ASCII byte. -/
def char (b : UInt8) : Char := .ofNat b.toNat

theorem fromUtf8_utf8 (s : List Char) : fromUtf8 (utf8 s) = some s := by
  have hencode : (utf8 s).toByteArray = s.utf8Encode := rfl
  rw [fromUtf8, hencode, List.utf8Decode?_utf8Encode, Option.map_some]

@[simp] lemma utf8_nil : utf8 [] = [] := rfl

@[simp] lemma utf8_cons (c : Char) (s : List Char) :
    utf8 (c :: s) = String.utf8EncodeChar c ++ utf8 s := List.flatMap_cons ..

@[simp] lemma utf8_append (s t : List Char) : utf8 (s ++ t) = utf8 s ++ utf8 t :=
  List.flatMap_append ..

lemma utf8_char : ∀ n < 128, String.utf8EncodeChar (char (.ofNat n)) = [.ofNat n] := by
  decide +kernel

lemma utf8EncodeChar_char {b : UInt8} (h : b < 128) : String.utf8EncodeChar (char b) = [b] := by
  have hb := utf8_char b.toNat (UInt8.lt_iff_toNat_lt.mp h)
  rwa [UInt8.ofNat_toNat] at hb

/-! ### Encoding and decoding -/

/-- `%{c:02X}`. -/
def hexDigit (n : ℕ) : Char := .ofNat (if n < 10 then 0x30 + n else 0x41 + n - 10)

def escapeByte (b : UInt8) : List Char := ['%', hexDigit (b.toNat / 16), hexDigit (b.toNat % 16)]

/-- Every byte but the kept ones is escaped. -/
def escape (keep : UInt8 → Bool) (bytes : List UInt8) : List Char :=
  bytes.flatMap fun b => if keep b then [char b] else escapeByte b

def hexVal (c : UInt8) : Option UInt8 :=
  if 0x30 ≤ c ∧ c ≤ 0x39 then some (c - 0x30)
  else if 0x61 ≤ c ∧ c ≤ 0x66 then some (c - 0x61 + 10)
  else if 0x41 ≤ c ∧ c ≤ 0x46 then some (c - 0x41 + 10)
  else none

/-- Percent-decoding without `+` handling. -/
def decode : List UInt8 → Option (List UInt8)
  | [] => some []
  | b :: rest =>
    if b = 0x25 then
      match rest with
      | h :: l :: rest => do
        let h ← hexVal h
        let l ← hexVal l
        let out ← decode rest
        return (h <<< 4 ||| l) :: out
      | _ => none
    else (decode rest).map (b :: ·)

/-- What may be kept. -/
structure Keepable (keep : UInt8 → Bool) : Prop where
  ascii : ∀ b, keep b → b < 128
  percent : keep 0x25 = false

variable {keep : UInt8 → Bool} {b : UInt8} {bytes : List UInt8}

/-- A hexadecimal digit as a byte. -/
def digit (n : ℕ) : UInt8 := .ofNat (hexDigit n).toNat

lemma utf8_escapeByte (b : UInt8) :
    utf8 (escapeByte b) = [0x25, digit (b.toNat / 16), digit (b.toNat % 16)] := by
  have hdigits : ∀ n < 256, utf8 (escapeByte (.ofNat n)) =
      [0x25, digit (n / 16), digit (n % 16)] := by
    decide +kernel
  have hb := hdigits b.toNat b.toNat_lt
  rwa [UInt8.ofNat_toNat] at hb

lemma hexVal_digits (b : UInt8) : ∃ h l, hexVal (digit (b.toNat / 16)) = some h ∧
    hexVal (digit (b.toNat % 16)) = some l ∧ h <<< 4 ||| l = b := by
  have hdigit : ∀ n < 16, hexVal (digit n) = some (.ofNat n) := by decide +kernel
  have hbyte : ∀ n < 256, UInt8.ofNat (n / 16) <<< 4 ||| UInt8.ofNat (n % 16) = .ofNat n := by
    decide +kernel
  have hlt := b.toNat_lt
  refine ⟨_, _, hdigit _ (by omega), hdigit _ (by omega), ?_⟩
  rw [hbyte b.toNat hlt, UInt8.ofNat_toNat]

lemma decode_escapeByte (b : UInt8) (rest : List UInt8) :
    decode (utf8 (escapeByte b) ++ rest) = (decode rest).map (b :: ·) := by
  obtain ⟨h, l, hh, hl, rfl⟩ := hexVal_digits b
  rw [utf8_escapeByte, List.cons_append, List.cons_append, List.cons_append, List.nil_append,
    decode, if_pos rfl, hh, hl]
  cases decode rest <;> rfl

lemma decode_cons_of_ne (h : b ≠ 0x25) (rest : List UInt8) :
    decode (b :: rest) = (decode rest).map (b :: ·) := by
  rw [decode.eq_def]
  exact if_neg h

/-- **What is escaped is read back.** -/
theorem decode_escape (hk : Keepable keep) (bytes : List UInt8) :
    decode (utf8 (escape keep bytes)) = some bytes := by
  induction bytes with
  | nil => rfl
  | cons b bytes ih =>
    rw [escape, List.flatMap_cons, utf8_append]
    split_ifs with hb
    · have hne : b ≠ 0x25 := by
        rintro rfl
        rw [hk.percent] at hb
        cases hb
      rw [utf8_cons, utf8_nil, List.append_nil, utf8EncodeChar_char (hk.ascii b hb),
        List.singleton_append, decode_cons_of_ne hne]
      exact congrArg (Option.map (b :: ·)) ih
    · rw [decode_escapeByte]
      exact congrArg (Option.map (b :: ·)) ih

lemma mem_escape {c : Char} (h : c ∈ escape keep bytes) :
    (∃ b, keep b = true ∧ c = char b) ∨ c = '%' ∨ ∃ n < 16, c = hexDigit n := by
  obtain ⟨b, -, hc⟩ := List.mem_flatMap.mp h
  split_ifs at hc with hb
  · exact .inl ⟨b, hb, List.mem_singleton.mp hc⟩
  · have hlt := b.toNat_lt
    rcases List.mem_cons.mp hc with rfl | hc
    · exact .inr (.inl rfl)
    rcases List.mem_cons.mp hc with rfl | hc
    · exact .inr (.inr ⟨_, by omega, rfl⟩)
    · exact .inr (.inr ⟨_, by omega, List.mem_singleton.mp hc⟩)

lemma forall_mem_escape {P : Char → Prop} (hkeep : ∀ b, keep b = true → P (char b))
    (hpercent : P '%') (hdigit : ∀ n < 16, P (hexDigit n)) : ∀ c ∈ escape keep bytes, P c := by
  intro c hc
  rcases mem_escape hc with ⟨b, hb, rfl⟩ | rfl | ⟨n, hn, rfl⟩
  · exact hkeep b hb
  · exact hpercent
  · exact hdigit n hn

end VoiceHub.Lib.Percent
