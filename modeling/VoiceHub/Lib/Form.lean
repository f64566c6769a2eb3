import Mathlib
import VoiceHub.Lib.HashMap
import VoiceHub.Lib.Percent
import VoiceHub.Lib.Text

/-!
Urlencoded forms: pairs of texts, percent-encoded with a plus for a blank, joined by ampersands.

A reader that takes the first value of every key finds in what was written what was put in,
whatever the texts are.
-/

namespace VoiceHub.Lib.Form

open VoiceHub.Lib.Percent VoiceHub.Lib.Text

/-! ### UTF-8 that may be broken -/

/-- The replacement character. -/
def replacement : Char := .ofNat 0xFFFD

/-- How the bytes after a first byte may range, if it is one. -/
def follows (b : UInt8) : Option (List (UInt8 × UInt8)) :=
  let any : UInt8 × UInt8 := (0x80, 0xBF)
  if b < 0x80 then some []
  else if 0xC2 ≤ b ∧ b ≤ 0xDF then some [any]
  else if b = 0xE0 then some [(0xA0, 0xBF), any]
  else if b = 0xED then some [(0x80, 0x9F), any]
  else if 0xE1 ≤ b ∧ b ≤ 0xEF then some [any, any]
  else if b = 0xF0 then some [(0x90, 0xBF), any, any]
  else if 0xF1 ≤ b ∧ b ≤ 0xF3 then some [any, any, any]
  else if b = 0xF4 then some [(0x80, 0x8F), any, any]
  else none

/-- How many bytes are in their ranges. -/
def matching : List (UInt8 × UInt8) → List UInt8 → ℕ
  | (lo, hi) :: ranges, b :: bytes => if lo ≤ b ∧ b ≤ hi then matching ranges bytes + 1 else 0
  | _, _ => 0

/-- Every longest beginning of a character that does not go on becomes one replacement. -/
def replaceInvalid : ℕ → List UInt8 → List Char
  | 0, _ => []
  | _, [] => []
  | n + 1, b :: bytes =>
    match follows b with
    | none => replacement :: replaceInvalid n bytes
    | some ranges =>
      let k := matching ranges bytes
      let c := if k = ranges.length then (fromUtf8 (b :: bytes.take k)).getD [] else [replacement]
      c ++ replaceInvalid n (bytes.drop k)

/-- `String::from_utf8_lossy(bytes)`. -/
def fromUtf8Lossy (bytes : List UInt8) : List Char :=
  (fromUtf8 bytes).getD (replaceInvalid bytes.length bytes)

@[simp] lemma fromUtf8Lossy_utf8 (s : List Char) : fromUtf8Lossy (utf8 s) = s := by
  rw [fromUtf8Lossy, fromUtf8_utf8, Option.getD_some]

/-! ### Reading -/

/-- Percent-decoding with `+` as a blank. A percent sign without two digits stands for itself. -/
def decodeBytes : List UInt8 → List UInt8
  | [] => []
  | b :: rest =>
    if b = 0x2B then 0x20 :: decodeBytes rest
    else if b = 0x25 then
      match rest with
      | h :: l :: rest' =>
        match hexVal h, hexVal l with
        | some h, some l => (h <<< 4 ||| l) :: decodeBytes rest'
        | _, _ => 0x25 :: decodeBytes (h :: l :: rest')
      | rest => 0x25 :: decodeBytes rest
    else b :: decodeBytes rest

def formDecode (s : List Char) : List Char := fromUtf8Lossy (decodeBytes (utf8 s))

/-- The pairs of a form, without their order and without the later values of a key. -/
abbrev Pairs := HashMap (List Char) (List Char)

/-- A pair without an equals sign is a key. -/
def readPair (m : Pairs) (pair : List Char) : Pairs :=
  let (k, v) := (splitOnce '=' pair).getD (pair, [])
  if (m.lookup (formDecode k)).isSome then m else AList.insert (formDecode k) (formDecode v) m

/-- First value of each key in an urlencoded string. -/
def parseForm (s : List Char) : Pairs :=
  ((s.splitOn '&').filter (· ≠ [])).foldl readPair ∅

/-! ### Writing -/

/-- What stays as it is. -/
def keep (b : UInt8) : Bool :=
  (0x30 ≤ b && b ≤ 0x39) || (0x41 ≤ b && b ≤ 0x5a) || (0x61 ≤ b && b ≤ 0x7a) ||
    [0x2A, 0x2D, 0x2E, 0x5F].contains b

def encodeByte (b : UInt8) : List Char :=
  if b = 0x20 then ['+'] else if keep b then [char b] else escapeByte b

def urlencode (s : List Char) : List Char := (utf8 s).flatMap encodeByte

def writePair (pair : List Char × List Char) : List Char :=
  urlencode pair.1 ++ '=' :: urlencode pair.2

/-- `URLSearchParams.toString()`. -/
def serialize (pairs : List (List Char × List Char)) : List Char :=
  ['&'].intercalate (pairs.map writePair)

/-! ### What was written is read -/

section Lemmas

variable {b : UInt8} {rest : List UInt8} {s : List Char} {m : Pairs} {k v : List Char}
  {pairs : List (List Char × List Char)}

lemma decodeBytes_escapeByte (b : UInt8) (rest : List UInt8) :
    decodeBytes (utf8 (escapeByte b) ++ rest) = b :: decodeBytes rest := by
  obtain ⟨h, l, hh, hl, hb⟩ := hexVal_digits b
  rw [utf8_escapeByte, List.cons_append, List.cons_append, List.cons_append, List.nil_append,
    decodeBytes, if_neg (by decide), if_pos rfl]
  simp only [hh, hl, hb]

lemma decodeBytes_keep (h : keep b = true) (rest : List UInt8) :
    decodeBytes (b :: rest) = b :: decodeBytes rest := by
  have hplus : b ≠ 0x2B := by
    rintro rfl
    exact absurd h (by decide)
  have hpercent : b ≠ 0x25 := by
    rintro rfl
    exact absurd h (by decide)
  rw [decodeBytes.eq_def]
  simp only [if_neg hplus, if_neg hpercent]

lemma keep_ascii (h : keep b = true) : b < 128 := by
  have hkept : ∀ n < 256, keep (.ofNat n) = true → UInt8.ofNat n < 128 := by decide +kernel
  have hb := hkept b.toNat b.toNat_lt
  rw [UInt8.ofNat_toNat] at hb
  exact hb h

lemma decodeBytes_encodeByte (b : UInt8) (rest : List UInt8) :
    decodeBytes (utf8 (encodeByte b) ++ rest) = b :: decodeBytes rest := by
  unfold encodeByte
  split_ifs with hblank hkeep
  · subst hblank
    have hplus : utf8 ['+'] = [0x2B] := by decide +kernel
    rw [hplus, List.singleton_append, decodeBytes.eq_def]
    exact if_pos rfl
  · rw [utf8_cons, utf8_nil, List.append_nil, utf8EncodeChar_char (keep_ascii hkeep),
      List.singleton_append, decodeBytes_keep hkeep]
  · exact decodeBytes_escapeByte b rest

lemma decodeBytes_encode (bytes : List UInt8) :
    decodeBytes (utf8 (bytes.flatMap encodeByte)) = bytes := by
  induction bytes with
  | nil => rfl
  | cons b bytes ih =>
    rw [List.flatMap_cons, utf8_append, decodeBytes_encodeByte, ih]

@[simp] lemma formDecode_urlencode (s : List Char) : formDecode (urlencode s) = s := by
  rw [formDecode, urlencode, decodeBytes_encode, fromUtf8Lossy_utf8]

lemma not_mem_urlencode {c : Char} (hc : c = '&' ∨ c = '=') (s : List Char) :
    c ∉ urlencode s := by
  have hbyte : ∀ n < 256, '&' ∉ encodeByte (.ofNat n) ∧ '=' ∉ encodeByte (.ofNat n) := by
    decide +kernel
  intro h
  obtain ⟨b, -, hb⟩ := List.mem_flatMap.mp h
  have hnot := hbyte b.toNat b.toNat_lt
  rw [UInt8.ofNat_toNat] at hnot
  rcases hc with rfl | rfl
  · exact hnot.1 hb
  · exact hnot.2 hb

lemma splitOnce_writePair (pair : List Char × List Char) :
    splitOnce '=' (writePair pair) = some (urlencode pair.1, urlencode pair.2) :=
  splitOnce_append (not_mem_urlencode (.inr rfl) pair.1)

lemma lookup_readPair (m : Pairs) (pair : List Char × List Char) (key : List Char) :
    (readPair m (writePair pair)).lookup key =
      (m.lookup key).or (if key = pair.1 then some pair.2 else none) := by
  have hread : readPair m (writePair pair) = if (m.lookup pair.1).isSome then m
      else AList.insert pair.1 pair.2 m := by
    rw [readPair, splitOnce_writePair, Option.getD_some]
    dsimp only
    rw [formDecode_urlencode, formDecode_urlencode]
  rw [hread]
  split_ifs with hin hkey hkey
  · obtain ⟨w, hw⟩ := Option.isSome_iff_exists.mp hin
    rw [hkey, hw, Option.some_or]
  · rw [Option.or_none]
  · have hnone : m.lookup pair.1 = none := by simpa using hin
    rw [hkey, AList.lookup_insert, hnone, Option.none_or]
  · rw [AList.lookup_insert_ne hkey, Option.or_none]

lemma lookup_foldl_readPair (pairs : List (List Char × List Char)) (m : Pairs)
    (key : List Char) : ((pairs.map writePair).foldl readPair m).lookup key =
      (m.lookup key).or (pairs.lookup key) := by
  induction pairs generalizing m with
  | nil => rw [List.map_nil, List.foldl_nil, List.lookup_nil, Option.or_none]
  | cons pair pairs ih =>
    rw [List.map_cons, List.foldl_cons, ih, lookup_readPair, Option.or_assoc]
    obtain ⟨k, v⟩ := pair
    by_cases hkey : key = k
    · simp [hkey]
    · rw [List.lookup_cons, beq_false_of_ne hkey, if_neg hkey, Option.none_or]

/-- **Forms are read as they were written**: under every key there is its first value. -/
theorem lookup_parseForm (pairs : List (List Char × List Char)) (key : List Char) :
    (parseForm (serialize pairs)).lookup key = pairs.lookup key := by
  have hpairs : ((serialize pairs).splitOn '&').filter (· ≠ []) = pairs.map writePair := by
    by_cases hnil : pairs = []
    · subst hnil
      decide +kernel
    · rw [serialize, List.splitOn_intercalate '&' (fun part hpart => ?_) (by simpa using hnil),
        List.filter_eq_self.mpr fun part hpart => ?_]
      · obtain ⟨pair, -, rfl⟩ := List.mem_map.mp hpart
        simp [writePair]
      · obtain ⟨pair, -, rfl⟩ := List.mem_map.mp hpart
        rw [writePair, List.mem_append, List.mem_cons]
        rintro (h | h | h)
        · exact not_mem_urlencode (.inl rfl) _ h
        · exact absurd h (by decide)
        · exact not_mem_urlencode (.inl rfl) _ h
  rw [parseForm, hpairs, lookup_foldl_readPair, AList.lookup_empty, Option.none_or]

end Lemmas

end VoiceHub.Lib.Form
