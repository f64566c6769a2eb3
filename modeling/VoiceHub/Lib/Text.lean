import Mathlib

/-!
Text that is split at separators, and integers written in decimal.

What is joined with a separator that none of the parts but the last has is split into the
same parts again, and an integer is read back as it was written.
-/

namespace VoiceHub.Lib.Text

/-- `char::is_whitespace`. -/
def isWhitespace (c : Char) : Bool :=
  (9 ≤ c.toNat && c.toNat ≤ 13) || (0x2000 ≤ c.toNat && c.toNat ≤ 0x200A) ||
    [0x20, 0x85, 0xA0, 0x1680, 0x2028, 0x2029, 0x202F, 0x205F, 0x3000].contains c.toNat

/-- `s.trim()`. -/
def trim (s : List Char) : List Char :=
  ((s.dropWhile isWhitespace).reverse.dropWhile isWhitespace).reverse

/-- `s.rsplit_once(sep)`: what is before and after the last separator. -/
def rsplitOnce (sep : Char) (s : List Char) : Option (List Char × List Char) :=
  let r := s.reverse
  if sep ∈ r then some ((r.dropWhile (· ≠ sep)).tail.reverse, (r.takeWhile (· ≠ sep)).reverse)
  else none

/-- `s.split_once(sep)`: what is before and after the first separator. -/
def splitOnce (sep : Char) (s : List Char) : Option (List Char × List Char) :=
  match s.dropWhile (· ≠ sep) with
  | [] => none
  | _ :: rest => some (s.takeWhile (· ≠ sep), rest)

/-- `s.splitn(n, sep)`: at most `n` parts, the last with the separators left in it. -/
def splitN (sep : Char) : ℕ → List Char → List (List Char)
  | 0, _ => []
  | 1, s => [s]
  | n + 2, s =>
    match splitOnce sep s with
    | none => [s]
    | some (part, rest) => part :: splitN sep (n + 1) rest

variable {sep : Char} {a b : List Char} {n : ℕ}

lemma takeWhile_sep (h : sep ∉ a) : (a ++ sep :: b).takeWhile (· ≠ sep) = a := by
  rw [List.takeWhile_append_of_pos (fun c hc => by
    simp only [decide_eq_true_eq]
    rintro rfl
    exact h hc)]
  simp

lemma dropWhile_sep (h : sep ∉ a) : (a ++ sep :: b).dropWhile (· ≠ sep) = sep :: b := by
  rw [List.dropWhile_append_of_pos (fun c hc => by
    simp only [decide_eq_true_eq]
    rintro rfl
    exact h hc)]
  simp

lemma splitOnce_append (h : sep ∉ a) : splitOnce sep (a ++ sep :: b) = some (a, b) := by
  rw [splitOnce, dropWhile_sep h, takeWhile_sep h]

lemma rsplitOnce_append (h : sep ∉ b) : rsplitOnce sep (a ++ sep :: b) = some (a, b) := by
  have hb : sep ∉ b.reverse := by rwa [List.mem_reverse]
  have hrev : (a ++ sep :: b).reverse = b.reverse ++ sep :: a.reverse := by simp
  simp only [rsplitOnce, hrev, takeWhile_sep hb, dropWhile_sep hb]
  simp

lemma rsplitOnce_eq {s : List Char} (h : rsplitOnce sep s = some (a, b)) :
    s = a ++ sep :: b := by
  rw [rsplitOnce] at h
  split_ifs at h with hmem
  obtain ⟨rfl, rfl⟩ := Prod.mk.inj (Option.some.inj h)
  have hne : s.reverse.dropWhile (· ≠ sep) ≠ [] := by
    intro hnil
    have hall := List.dropWhile_eq_nil_iff.mp hnil sep hmem
    simp at hall
  have hhead : (s.reverse.dropWhile (· ≠ sep)).head hne = sep := by
    have hnot := List.head_dropWhile_not (fun c => decide (c ≠ sep)) hne
    simpa using hnot
  have hcons : sep :: (s.reverse.dropWhile (· ≠ sep)).tail = s.reverse.dropWhile (· ≠ sep) := by
    conv_rhs => rw [← List.cons_head_tail hne, hhead]
  have hrev : s.reverse.reverse = ((s.reverse.takeWhile (· ≠ sep)) ++
      (s.reverse.dropWhile (· ≠ sep))).reverse := by
    rw [List.takeWhile_append_dropWhile]
  rw [List.reverse_reverse, List.reverse_append, ← hcons, List.reverse_cons,
    List.append_assoc, List.singleton_append] at hrev
  exact hrev

lemma splitN_append (h : sep ∉ a) :
    splitN sep (n + 2) (a ++ sep :: b) = a :: splitN sep (n + 1) b := by
  rw [splitN, splitOnce_append h]

/-! ### All the parts -/

lemma not_mem_of_mem_splitOn {s part : List Char} (h : part ∈ s.splitOn sep) : sep ∉ part := by
  induction s generalizing part with
  | nil =>
    rw [List.splitOn_nil, List.mem_singleton] at h
    rw [h]
    exact List.not_mem_nil
  | cons c s ih =>
    rw [List.splitOn_cons_eq_if_modifyHead] at h
    split_ifs at h with hc
    · rcases List.mem_cons.mp h with rfl | h
      · exact List.not_mem_nil
      · exact ih h
    · obtain ⟨first, rest, hs⟩ := List.exists_cons_of_ne_nil (List.splitOn_ne_nil sep s)
      rw [hs, List.modifyHead_cons] at h
      rcases List.mem_cons.mp h with rfl | h
      · refine List.not_mem_cons_of_ne_of_not_mem (fun heq => hc ?_) (ih ?_)
        · rw [heq, beq_self_eq_true]
        · rw [hs]
          exact List.mem_cons_self
      · exact ih (hs ▸ List.mem_cons_of_mem first h)

lemma intercalate_snoc {parts : List (List Char)} (h : parts ≠ []) (last : List Char) :
    [sep].intercalate (parts ++ [last]) = [sep].intercalate parts ++ sep :: last := by
  induction parts with
  | nil => exact absurd rfl h
  | cons part parts ih =>
    cases parts with
    | nil => simp
    | cons next parts =>
      rw [List.cons_append, List.intercalate_cons_of_ne_nil (by simp), ih (List.cons_ne_nil _ _),
        List.intercalate_cons_cons]
      simp only [List.append_assoc]

/-! ### Trimming -/

lemma trim_space {c : Char} (h : isWhitespace c = true) (s : List Char) :
    trim (c :: s) = trim s := by
  rw [trim, List.dropWhile_cons_of_pos h, trim]

lemma trim_ends {c z : Char} (hc : isWhitespace c = false) (hz : isWhitespace z = false)
    (s : List Char) : trim (c :: (s ++ [z])) = c :: (s ++ [z]) := by
  have hrev : (c :: (s ++ [z])).reverse = z :: (c :: s).reverse := by simp
  rw [trim, List.dropWhile_cons_of_neg (by rw [hc]; exact Bool.false_ne_true), hrev,
    List.dropWhile_cons_of_neg (by rw [hz]; exact Bool.false_ne_true), ← hrev,
    List.reverse_reverse]

lemma dropWhile_blank {s : List Char} (h : ∀ c ∈ s, isWhitespace c = false) :
    s.dropWhile isWhitespace = s := by
  cases s with
  | nil => rfl
  | cons c s =>
    refine List.dropWhile_cons_of_neg ?_
    rw [h c List.mem_cons_self]
    exact Bool.false_ne_true

lemma trim_of_forall {s : List Char} (h : ∀ c ∈ s, isWhitespace c = false) : trim s = s := by
  rw [trim, dropWhile_blank h, dropWhile_blank fun c hc => h c (List.mem_reverse.mp hc),
    List.reverse_reverse]

/-! ### Decimal integers -/

/-- The value of a row of digits. -/
def digits (s : List Char) : Option ℕ :=
  if s ≠ [] ∧ s.all Char.isDigit then some (Nat.ofDigitChars 10 s 0) else none

/-- Without a leading plus sign. -/
def unsigned : List Char → List Char
  | '+' :: s => s
  | s => s

/-- `s.parse::<u64>().ok()`. -/
def parseU64 (s : List Char) : Option UInt64 :=
  (digits (unsigned s)).bind fun n => if n < 2 ^ 64 then some (.ofNat n) else none

/-- `s.parse::<i64>().ok()`. -/
def parseI64 (s : List Char) : Option Int64 :=
  match s with
  | '-' :: s => (digits s).bind fun n => if n ≤ 2 ^ 63 then some (.ofInt (-n)) else none
  | s => (digits (unsigned s)).bind fun n => if n < 2 ^ 63 then some (.ofInt n) else none

def formatNat (n : ℕ) : List Char := Nat.toDigits 10 n

def formatU64 (n : UInt64) : List Char := formatNat n.toNat

def formatI64 (i : Int64) : List Char :=
  if i.toInt < 0 then '-' :: formatNat i.toInt.natAbs else formatNat i.toInt.natAbs

lemma isDigit_formatNat {c : Char} (h : c ∈ formatNat n) : c.isDigit :=
  Nat.isDigit_of_mem_toDigits (by decide) (by decide) h

lemma digits_formatNat (n : ℕ) : digits (formatNat n) = some n := by
  have hne : formatNat n ≠ [] := by
    have := Nat.length_toDigits_pos (b := 10) (n := n)
    exact List.ne_nil_of_length_pos this
  have hall : (formatNat n).all Char.isDigit := List.all_eq_true.mpr fun c => isDigit_formatNat
  rw [digits, if_pos ⟨hne, hall⟩, formatNat, Nat.ofDigitChars_ten_toDigits]

lemma not_mem_formatNat {c : Char} (h : c.isDigit = false) : c ∉ formatNat n := by
  intro hc
  rw [isDigit_formatNat hc] at h
  cases h

lemma unsigned_formatNat (n : ℕ) : unsigned (formatNat n) = formatNat n := by
  unfold unsigned
  split
  · next s heq =>
    exact absurd (heq ▸ List.mem_cons_self) (not_mem_formatNat (n := n) (c := '+') rfl)
  · rfl

lemma not_mem_formatU64 {c : Char} (h : c.isDigit = false) (i : UInt64) : c ∉ formatU64 i :=
  not_mem_formatNat h

lemma not_mem_formatI64 {c : Char} (h : c.isDigit = false) (hc : c ≠ '-') (i : Int64) :
    c ∉ formatI64 i := by
  unfold formatI64
  split
  · rw [List.mem_cons]
    exact not_or.mpr ⟨hc, not_mem_formatNat h⟩
  · exact not_mem_formatNat h

theorem parseU64_format (i : UInt64) : parseU64 (formatU64 i) = some i := by
  rw [parseU64, formatU64, unsigned_formatNat, digits_formatNat, Option.bind_some,
    if_pos i.toNat_lt, UInt64.ofNat_toNat]

theorem parseI64_format (i : Int64) : parseI64 (formatI64 i) = some i := by
  have hlo := i.le_toInt
  have hhi := i.toInt_lt
  unfold formatI64
  split
  · next hneg =>
    have hle : i.toInt.natAbs ≤ 2 ^ 63 := by omega
    have hval : -(i.toInt.natAbs : ℤ) = i.toInt := by omega
    rw [parseI64, digits_formatNat, Option.bind_some, if_pos hle, hval, Int64.ofInt_toInt]
  · next hpos =>
    have hlt : i.toInt.natAbs < 2 ^ 63 := by omega
    have hval : (i.toInt.natAbs : ℤ) = i.toInt := by omega
    unfold parseI64
    split
    · next s heq =>
      exact absurd (heq ▸ List.mem_cons_self)
        (not_mem_formatNat (n := i.toInt.natAbs) (c := '-') rfl)
    · rw [unsigned_formatNat, digits_formatNat, Option.bind_some, if_pos hlt, hval,
        Int64.ofInt_toInt]

end VoiceHub.Lib.Text
