import Mathlib
import VoiceHub.Lib.Base64
import VoiceHub.Lib.Percent
import VoiceHub.Lib.Text

/-!
Password hashes, `argon2id$t=<t>$m=<m>$p=<p>$<salt>$<key>`, and when a password matches one.

The derivation of a key is another library's.
-/

namespace VoiceHub.Auth.Password

open VoiceHub.Lib VoiceHub.Lib.Text VoiceHub.Lib.Percent

def ARGON_TIME : UInt32 := 2
/-- In KiB. -/
def ARGON_MEMORY : UInt32 := 64 * 1024
def ARGON_THREADS : UInt32 := 1
def ARGON_KEY_LEN : ℕ := 32
def ARGON_SALT_LEN : ℕ := 16

/-- argon2id: a key from a password and a salt, for a time, memory and thread cost and a length,
which must be in range. -/
structure Argon2 where
  derive : List UInt8 → List UInt8 → UInt32 → UInt32 → UInt32 → ℕ → Option (List UInt8)
  length : ∀ plain salt t m p n key, derive plain salt t m p n = some key → key.length = n
  valid : ∀ plain salt, plain.length < 2 ^ 32 → salt.length = ARGON_SALT_LEN →
    (derive plain salt ARGON_TIME ARGON_MEMORY ARGON_THREADS ARGON_KEY_LEN).isSome

def constantTimeEq (a b : List UInt8) : Bool :=
  if a.length ≠ b.length then false
  else (a.zip b).foldl (fun acc xy => acc ||| (xy.1 ^^^ xy.2)) 0 = 0

structure Parsed where
  t : UInt32
  m : UInt32
  p : UInt32
  salt : List UInt8
  key : List UInt8
  deriving DecidableEq

/-- `s.parse::<u32>().ok()` of digits. -/
def parseU32 (s : List Char) : Option UInt32 :=
  (digits s).bind fun n => if n < 2 ^ 32 then some (.ofNat n) else none

/-- What comes after the digits is not looked at. -/
def leadingDigits (s : List Char) : Option (List Char) :=
  let digits := s.takeWhile Char.isDigit
  if digits = [] then none else some digits

/-- A number other than zero, after its name. -/
def num (name : List Char) (s : List Char) : Option UInt32 := do
  if ¬ name.isPrefixOf s then none
  else
    let v ← parseU32 (← leadingDigits (s.drop name.length))
    if v ≠ 0 then some v else none

def decodeNonempty (s : List Char) : Option (List UInt8) :=
  (Base64.decode Base64.std s).filter (· ≠ [])

def parse (encoded : List Char) : Option Parsed :=
  match encoded.splitOn '$' with
  | [name, t, m, p, salt, key] =>
    if name ≠ "argon2id".toList then none
    else do
      let t ← num "t=".toList t
      let m ← num "m=".toList m
      let p ← num "p=".toList p
      if p > 255 then none
      else return ⟨t, m, p, ← decodeNonempty salt, ← decodeNonempty key⟩
  | _ => none

/-- Lets startup reject a mangled value. -/
def validHash (encoded : List Char) : Bool := (parse encoded).isSome

section Hash

variable (argon2 : Argon2)

/-- The text of a salt and a key. -/
def format (salt key : List UInt8) : List Char :=
  ['$'].intercalate ["argon2id".toList, "t=".toList ++ formatNat ARGON_TIME.toNat,
    "m=".toList ++ formatNat ARGON_MEMORY.toNat, "p=".toList ++ formatNat ARGON_THREADS.toNat,
    Base64.encode Base64.std salt, Base64.encode Base64.std key]

/-- None where the parameters are not valid, which panics. -/
def hash (salt : Vector UInt8 ARGON_SALT_LEN) (plain : List Char) : Option (List Char) :=
  (argon2.derive (utf8 plain) salt.toList ARGON_TIME ARGON_MEMORY ARGON_THREADS
    ARGON_KEY_LEN).map (format salt.toList)

/-- A malformed hash never matches. -/
def verify (encoded plain : List Char) : Bool :=
  match parse encoded with
  | none => false
  | some h =>
    match argon2.derive (utf8 plain) h.salt h.t h.m h.p h.key.length with
    | none => false
    | some got => constantTimeEq got h.key

end Hash

section Lemmas

variable {argon2 : Argon2} {a b salt key : List UInt8} {x y : UInt8}

lemma foldl_or_eq_zero {xys : List (UInt8 × UInt8)} :
    xys.foldl (fun acc xy => acc ||| (xy.1 ^^^ xy.2)) x = 0 ↔
      x = 0 ∧ ∀ xy ∈ xys, xy.1 = xy.2 := by
  induction xys generalizing x with
  | nil => simp
  | cons xy xys ih =>
    rw [List.foldl_cons, ih, List.forall_mem_cons, UInt8.or_eq_zero_iff, UInt8.xor_eq_zero_iff,
      and_assoc]

/-- Comparing in constant time is comparing. -/
theorem constantTimeEq_iff : constantTimeEq a b = true ↔ a = b := by
  rw [constantTimeEq]
  split_ifs with hlen
  · refine iff_of_false not_false ?_
    rintro rfl
    exact hlen rfl
  · rw [decide_eq_true_iff, foldl_or_eq_zero]
    constructor
    · rintro ⟨-, h⟩
      refine List.ext_getElem (not_not.mp hlen) fun i hi hj => ?_
      exact h (a[i], b[i]) (List.mem_iff_getElem.mpr ⟨i, by simp [hi, hj], by simp⟩)
    · rintro rfl
      refine ⟨rfl, fun xy hxy => ?_⟩
      obtain ⟨i, hi, rfl⟩ := List.mem_iff_getElem.mp hxy
      simp

lemma num_format (name : List Char) {v : UInt32} (hv : v ≠ 0) :
    num name (name ++ formatNat v.toNat) = some v := by
  have hdigits : (formatNat v.toNat).takeWhile Char.isDigit = formatNat v.toNat :=
    List.takeWhile_eq_self_iff.mpr fun c hc => isDigit_formatNat hc
  have hne : formatNat v.toNat ≠ [] := List.ne_nil_of_length_pos Nat.length_toDigits_pos
  have hlead : leadingDigits (formatNat v.toNat) = some (formatNat v.toNat) := by
    rw [leadingDigits, hdigits]
    exact if_neg hne
  have hread : parseU32 (formatNat v.toNat) = some v := by
    rw [parseU32, digits_formatNat, Option.bind_some, if_pos v.toNat_lt, UInt32.ofNat_toNat]
  have hname : name.isPrefixOf (name ++ formatNat v.toNat) = true :=
    List.isPrefixOf_iff_prefix.mpr (List.prefix_append ..)
  rw [num, if_neg (not_not_intro hname), List.drop_left, hlead]
  simp only [Option.bind_eq_bind, Option.bind_some, hread]
  exact if_pos hv

lemma decodeNonempty_encode (h : a ≠ []) :
    decodeNonempty (Base64.encode Base64.std a) = some a := by
  rw [decodeNonempty, Base64.decode_encode, Option.filter_some, if_pos (by simpa using h)]

lemma dollar_not_mem_encode (bytes : List UInt8) : '$' ∉ Base64.encode Base64.std bytes := by
  have hchars : '$' ∉ Base64.std.chars := by decide +kernel
  exact fun h => hchars (Base64.mem_encode h)

lemma dollar_not_mem_num {name : List Char} (h : '$' ∉ name) (v : UInt32) :
    '$' ∉ name ++ formatNat v.toNat := by
  rw [List.mem_append]
  exact not_or.mpr ⟨h, not_mem_formatNat rfl⟩

lemma splitOn_format (salt key : List UInt8) : (format salt key).splitOn '$' =
    ["argon2id".toList, "t=".toList ++ formatNat ARGON_TIME.toNat,
      "m=".toList ++ formatNat ARGON_MEMORY.toNat, "p=".toList ++ formatNat ARGON_THREADS.toNat,
      Base64.encode Base64.std salt, Base64.encode Base64.std key] := by
  refine List.splitOn_intercalate '$' ?_ (by simp)
  simp only [List.forall_mem_cons, List.not_mem_nil, false_implies, implies_true, and_true]
  exact ⟨by decide +kernel, dollar_not_mem_num (by decide) _, dollar_not_mem_num (by decide) _,
    dollar_not_mem_num (by decide) _, dollar_not_mem_encode salt, dollar_not_mem_encode key⟩

/-- **A hash is read as it was written.** -/
theorem parse_format (hsalt : salt ≠ []) (hkey : key ≠ []) :
    parse (format salt key) = some ⟨ARGON_TIME, ARGON_MEMORY, ARGON_THREADS, salt, key⟩ := by
  rw [parse, splitOn_format]
  simp only [ne_eq, not_true_eq_false, if_false]
  rw [num_format _ (by decide), num_format _ (by decide), num_format _ (by decide),
    decodeNonempty_encode hsalt, decodeNonempty_encode hkey]
  rfl

lemma salt_ne_nil (salt : Vector UInt8 ARGON_SALT_LEN) : salt.toList ≠ [] := by
  refine List.ne_nil_of_length_pos ?_
  rw [Vector.length_toList]
  decide

lemma parse_hash {salt : Vector UInt8 ARGON_SALT_LEN} {plain encoded : List Char}
    (h : hash argon2 salt plain = some encoded) : ∃ key, key.length = ARGON_KEY_LEN ∧
      argon2.derive (utf8 plain) salt.toList ARGON_TIME ARGON_MEMORY ARGON_THREADS
        ARGON_KEY_LEN = some key ∧
      parse encoded = some ⟨ARGON_TIME, ARGON_MEMORY, ARGON_THREADS, salt.toList, key⟩ := by
  obtain ⟨key, hkey, rfl⟩ := Option.map_eq_some_iff.mp h
  have hlen := argon2.length _ _ _ _ _ _ _ hkey
  have hne : key ≠ [] := List.ne_nil_of_length_pos (hlen ▸ by decide)
  exact ⟨key, hlen, hkey, parse_format (salt_ne_nil salt) hne⟩

lemma verify_iff {salt : Vector UInt8 ARGON_SALT_LEN} {plain encoded : List Char}
    (h : hash argon2 salt plain = some encoded) (other : List Char) :
    verify argon2 encoded other = true ↔
      argon2.derive (utf8 other) salt.toList ARGON_TIME ARGON_MEMORY ARGON_THREADS
          ARGON_KEY_LEN =
        argon2.derive (utf8 plain) salt.toList ARGON_TIME ARGON_MEMORY ARGON_THREADS
          ARGON_KEY_LEN := by
  obtain ⟨key, hlen, hkey, hparse⟩ := parse_hash h
  rw [verify, hparse, hkey]
  simp only [hlen]
  cases argon2.derive (utf8 other) salt.toList ARGON_TIME ARGON_MEMORY ARGON_THREADS
      ARGON_KEY_LEN with
  | none => simp
  | some got => simp [constantTimeEq_iff]

/-- **A password matches its hash**, and so does just what has the same key: another password
only where the derivation takes both to one key under the hash's salt. Every hash that is made
is valid, and it tells its salt. -/
theorem verify_hash (argon2 : Argon2) {salt : Vector UInt8 ARGON_SALT_LEN}
    {plain encoded : List Char} (h : hash argon2 salt plain = some encoded) :
    validHash encoded = true ∧ verify argon2 encoded plain = true ∧
      (∀ other, verify argon2 encoded other = true ↔
        argon2.derive (utf8 other) salt.toList ARGON_TIME ARGON_MEMORY ARGON_THREADS
            ARGON_KEY_LEN =
          argon2.derive (utf8 plain) salt.toList ARGON_TIME ARGON_MEMORY ARGON_THREADS
            ARGON_KEY_LEN) ∧
      ∀ salt' plain', hash argon2 salt' plain' = some encoded → salt' = salt := by
  obtain ⟨key, -, -, hparse⟩ := parse_hash h
  refine ⟨?_, (verify_iff h plain).mpr rfl, verify_iff h, fun salt' plain' h' => ?_⟩
  · rw [validHash, hparse, Option.isSome_some]
  · obtain ⟨key', -, -, hparse'⟩ := parse_hash h'
    rw [hparse] at hparse'
    exact Vector.toList_inj.mp (Parsed.mk.inj (Option.some.inj hparse')).2.2.2.1.symm

/-- The salt and the key of a hash of `dev`. -/
def devSalt : Vector UInt8 ARGON_SALT_LEN := #v[
  0xFB, 0xFD, 0x4E, 0x70, 0x12, 0xFE, 0x91, 0x83, 0xF0, 0x3B, 0x9A, 0x2B, 0xC3, 0x47,
  0x62, 0x92]

def devKey : List UInt8 := [
  0xCE, 0xB2, 0x95, 0x85, 0x97, 0x3A, 0xBB, 0x77, 0x0D, 0x47, 0x0F, 0x58, 0x89, 0x50,
  0x13, 0xD8, 0x29, 0x7C, 0x58, 0xC7, 0xC8, 0x3D, 0x5B, 0x3D, 0x1E, 0x9D, 0x08, 0xDB,
  0x36, 0x60, 0xFA, 0xE0]

/-- A derivation that gives that key. -/
def devArgon2 : Argon2 where
  derive plain salt t m p n :=
    if plain = utf8 "dev".toList ∧ salt = devSalt.toList ∧ t = ARGON_TIME ∧ m = ARGON_MEMORY ∧
        p = ARGON_THREADS ∧ n = ARGON_KEY_LEN then some devKey
    else some ((plain ++ List.replicate n 0).take n)
  length plain salt t m p n key h := by
    split_ifs at h with hdev
    · rw [← Option.some.inj h, hdev.2.2.2.2.2]
      rfl
    · rw [← Option.some.inj h, List.length_take, List.length_append, List.length_replicate]
      omega
  valid plain salt _ _ := by
    split_ifs <;> rfl

def devHash : List Char :=
  "argon2id$t=2$m=65536$p=1$+/1OcBL+kYPwO5orw0dikg$zrKVhZc6u3cNRw9YiVAT2Cl8WMfIPVs9Hp0I2zZg+uA".toList

theorem verify_hash_dev : verify devArgon2 devHash "dev".toList = true :=
  have h : hash devArgon2 devSalt "dev".toList = some devHash := by decide +kernel
  (verify_hash devArgon2 h).2.1

end Lemmas

end VoiceHub.Auth.Password
