import Mathlib

/-!
Base64 without padding, over any alphabet.

Three bytes are four characters; one or two bytes at the end are two or three. Only what is
written for some bytes is read.
-/

namespace VoiceHub.Lib.Base64

/-- Six bits a character. -/
structure Alphabet where
  chars : List Char
  nodup : chars.Nodup
  length : chars.length = 64

def letters : List Char :=
  "ABCDEFGHIJKLMNOPQRSTUVWXYZabcdefghijklmnopqrstuvwxyz0123456789".toList

def std : Alphabet := ⟨letters ++ ['+', '/'], by decide +kernel, by decide +kernel⟩

/-- For URLs. -/
def url : Alphabet := ⟨letters ++ ['-', '_'], by decide +kernel, by decide +kernel⟩

namespace Alphabet

variable (a : Alphabet)

def char (n : ℕ) : Char := a.chars.getD n 'A'

def val (c : Char) : Option ℕ := if c ∈ a.chars then some (a.chars.idxOf c) else none

end Alphabet

/-- Bytes as numbers of six bits. -/
def sextets : List UInt8 → List ℕ
  | x :: y :: z :: rest =>
    x.toNat / 4 :: (x.toNat % 4 * 16 + y.toNat / 16) :: (y.toNat % 16 * 4 + z.toNat / 64) ::
      z.toNat % 64 :: sextets rest
  | [x, y] => [x.toNat / 4, x.toNat % 4 * 16 + y.toNat / 16, y.toNat % 16 * 4]
  | [x] => [x.toNat / 4, x.toNat % 4 * 16]
  | [] => []

def octets : List ℕ → Option (List UInt8)
  | p :: q :: r :: s :: rest => (octets rest).map fun bytes =>
      .ofNat (p * 4 + q / 16) :: .ofNat (q % 16 * 16 + r / 4) :: .ofNat (r % 4 * 64 + s) :: bytes
  | [p, q, r] => some [.ofNat (p * 4 + q / 16), .ofNat (q % 16 * 16 + r / 4)]
  | [p, q] => some [.ofNat (p * 4 + q / 16)]
  | [_] => none
  | [] => some []

section Codec

variable (a : Alphabet)

def encode (bytes : List UInt8) : List Char := (sextets bytes).map a.char

/-- Bits that are left over at the end must be zero. -/
def decode (s : List Char) : Option (List UInt8) := do
  let bytes ← octets (← s.mapM a.val)
  if encode a bytes = s then some bytes else none

end Codec

variable {a : Alphabet} {bytes : List UInt8}

lemma Alphabet.char_mem {n : ℕ} (h : n < 64) : a.char n ∈ a.chars := by
  have hlen : n < a.chars.length := a.length ▸ h
  rw [Alphabet.char, List.getD_eq_getElem _ _ hlen]
  exact List.getElem_mem hlen

lemma Alphabet.val_char {n : ℕ} (h : n < 64) : a.val (a.char n) = some n := by
  have hlen : n < a.chars.length := a.length ▸ h
  rw [Alphabet.val, if_pos (Alphabet.char_mem h), Alphabet.char, List.getD_eq_getElem _ _ hlen,
    a.nodup.idxOf_getElem]

lemma sextets_lt (bytes : List UInt8) : ∀ n ∈ sextets bytes, n < 64 := by
  induction bytes using sextets.induct with
  | case1 x y z rest ih =>
    have hx := x.toNat_lt
    have hy := y.toNat_lt
    have hz := z.toNat_lt
    simp only [sextets, List.forall_mem_cons]
    exact ⟨by omega, by omega, by omega, by omega, ih⟩
  | case2 x y =>
    have hx := x.toNat_lt
    have hy := y.toNat_lt
    simp only [sextets, List.forall_mem_cons]
    exact ⟨by omega, by omega, by omega, by simp⟩
  | case3 x =>
    have hx := x.toNat_lt
    simp only [sextets, List.forall_mem_cons]
    exact ⟨by omega, by omega, by simp⟩
  | case4 => simp [sextets]

lemma ofNat_of_eq {b : UInt8} {n : ℕ} (h : n = b.toNat) : UInt8.ofNat n = b := by
  rw [h, UInt8.ofNat_toNat]

lemma octets_sextets (bytes : List UInt8) : octets (sextets bytes) = some bytes := by
  induction bytes using sextets.induct with
  | case1 x y z rest ih =>
    have hy := y.toNat_lt
    have hz := z.toNat_lt
    rw [sextets, octets, ih, Option.map_some, ofNat_of_eq (b := x) (by omega),
      ofNat_of_eq (b := y) (by omega), ofNat_of_eq (b := z) (by omega)]
  | case2 x y =>
    have hy := y.toNat_lt
    rw [sextets, octets, ofNat_of_eq (b := x) (by omega), ofNat_of_eq (b := y) (by omega)]
  | case3 x => rw [sextets, octets, ofNat_of_eq (b := x) (by omega)]
  | case4 => rfl

lemma mapM_val {ns : List ℕ} (h : ∀ n ∈ ns, n < 64) : (ns.map a.char).mapM a.val = some ns := by
  induction ns with
  | nil => rfl
  | cons n ns ih =>
    rw [List.map_cons, List.mapM_cons, Alphabet.val_char (h n List.mem_cons_self),
      ih fun n hn => h n (List.mem_cons_of_mem _ hn)]
    rfl

/-- **Bytes are read back.** -/
@[simp] theorem decode_encode (a : Alphabet) (bytes : List UInt8) :
    decode a (encode a bytes) = some bytes := by
  have hvals : (encode a bytes).mapM a.val = some (sextets bytes) := mapM_val (sextets_lt bytes)
  simp only [decode, hvals, octets_sextets, Option.bind_eq_bind, Option.bind_some, if_true]

lemma mem_encode {c : Char} (h : c ∈ encode a bytes) : c ∈ a.chars := by
  obtain ⟨n, hn, rfl⟩ := List.mem_map.mp h
  exact Alphabet.char_mem (sextets_lt bytes n hn)

end VoiceHub.Lib.Base64
