import Mathlib
import VoiceHub.Lib.Text

/-!
IP addresses: how they are read and written.

A number is written in a base of up to sixteen without leading zeros, an IPv6 address with its
longest row of zeros left out. Different addresses are written differently.
-/

namespace VoiceHub.Lib.Ip

inductive IpAddr
  | v4 (bits : BitVec 32)
  | v6 (bits : BitVec 128)
  deriving DecidableEq

/-! ### Writing -/

/-- The four bytes of an IPv4 address. -/
def octets (a : BitVec 32) : List ℕ :=
  [a.toNat / 2 ^ 24 % 256, a.toNat / 2 ^ 16 % 256, a.toNat / 2 ^ 8 % 256, a.toNat % 256]

/-- The eight groups of an IPv6 address. -/
def segments (a : BitVec 128) : List ℕ :=
  [a.toNat / 2 ^ 112 % 2 ^ 16, a.toNat / 2 ^ 96 % 2 ^ 16, a.toNat / 2 ^ 80 % 2 ^ 16,
    a.toNat / 2 ^ 64 % 2 ^ 16, a.toNat / 2 ^ 48 % 2 ^ 16, a.toNat / 2 ^ 32 % 2 ^ 16,
    a.toNat / 2 ^ 16 % 2 ^ 16, a.toNat % 2 ^ 16]

/-- `parts.join(sep)` of numbers written in `base`. -/
def joined (base : ℕ) (sep : Char) (parts : List ℕ) : List Char :=
  [sep].intercalate (parts.map (Nat.toDigits base))

/-- How many zeros there are from `start` on. -/
def zerosAt (segs : List ℕ) (start : ℕ) : ℕ := ((segs.drop start).takeWhile (· = 0)).length

/-- Where the first of the longest rows of zeros is, and its length. -/
def longestZeros (segs : List ℕ) : ℕ × ℕ :=
  (List.range segs.length).foldl
    (fun best start => if best.2 < zerosAt segs start then (start, zerosAt segs start) else best)
    (0, 0)

/-- The IPv4 address that an IPv6 address maps. -/
def toIpv4Mapped (a : BitVec 128) : Option (BitVec 32) :=
  if a.toNat / 2 ^ 32 = 0xffff then some (.ofNat 32 a.toNat) else none

/-- An IPv4-mapped address is the IPv4 address. -/
def unmap : IpAddr → IpAddr
  | .v6 a => (toIpv4Mapped a).elim (.v6 a) .v4
  | .v4 a => .v4 a

def displaySegments (segs : List ℕ) : List Char :=
  let zeroes := longestZeros segs
  if 1 < zeroes.2 then
    joined 16 ':' (segs.take zeroes.1) ++ ':' :: ':' ::
      joined 16 ':' (segs.drop (zeroes.1 + zeroes.2))
  else joined 16 ':' segs

/-- `ip.to_string()`. -/
def IpAddr.display : IpAddr → List Char
  | .v4 a => joined 10 '.' (octets a)
  | .v6 a =>
    match toIpv4Mapped a with
    | some mapped => "::ffff:".toList ++ joined 10 '.' (octets mapped)
    | none => displaySegments (segments a)

/-! ### Reading -/

/-- `c.to_digit(radix)`. -/
def digitVal (radix : ℕ) (c : Char) : Option ℕ :=
  let v :=
    if '0' ≤ c ∧ c ≤ '9' then c.toNat - 0x30
    else if 'a' ≤ c ∧ c ≤ 'z' then c.toNat - 0x61 + 10
    else if 'A' ≤ c ∧ c ≤ 'Z' then c.toNat - 0x41 + 10
    else radix
  if v < radix then some v else none

/-- Digits and what comes after them, if their number is below `bound`. -/
def readNumber (radix maxDigits : ℕ) (allowZeroPrefix : Bool) (bound : ℕ) (s : List Char) :
    Option (ℕ × List Char) :=
  let ds := s.takeWhile fun c => (digitVal radix c).isSome
  let n := ds.foldl (fun n c => n * radix + (digitVal radix c).getD 0) 0
  let zeroPrefix := s.head? = some '0' ∧ 1 < ds.length
  if ds = [] ∨ maxDigits < ds.length ∨ (¬ allowZeroPrefix ∧ zeroPrefix) ∨ bound ≤ n then none
  else some (n, s.drop ds.length)

def readChar (c : Char) : List Char → Option (List Char)
  | a :: s => if a = c then some s else none
  | [] => none

/-- The separator comes before every part but the first. -/
def readSeparated {α : Type} (sep : Char) (i : ℕ) (inner : List Char → Option (α × List Char))
    (s : List Char) : Option (α × List Char) :=
  if i = 0 then inner s else (readChar sep s).bind inner

def readIpv4Octet (i : ℕ) (s : List Char) : Option (ℕ × List Char) :=
  readSeparated '.' i (readNumber 10 3 false 256) s

def readIpv4 (s : List Char) : Option (BitVec 32 × List Char) := do
  let (a, s) ← readIpv4Octet 0 s
  let (b, s) ← readIpv4Octet 1 s
  let (c, s) ← readIpv4Octet 2 s
  let (d, s) ← readIpv4Octet 3 s
  return (.ofNat 32 (((a * 256 + b) * 256 + c) * 256 + d), s)

/-- Up to `room` groups from the `i`-th on, whether an IPv4 address was the last of them, and
what comes after them. -/
def readGroups : ℕ → ℕ → List Char → List ℕ × Bool × List Char
  | _, 0, s => ([], false, s)
  | i, room + 1, s =>
    match if 1 ≤ room then readSeparated ':' i readIpv4 s else none with
    | some (v4, s) => ([v4.toNat / 2 ^ 16, v4.toNat % 2 ^ 16], true, s)
    | none =>
      match readSeparated ':' i (readNumber 16 4 true (2 ^ 16)) s with
      | some (g, s) =>
        let r := readGroups (i + 1) room s
        (g :: r.1, r.2)
      | none => ([], false, s)

def ofGroups (groups : List ℕ) : BitVec 128 :=
  .ofNat 128 (groups.foldl (fun n g => n * 2 ^ 16 + g) 0)

/-- Two colons stand for at least one group of zeros. -/
def readIpv6 (s : List Char) : Option (BitVec 128 × List Char) :=
  let (head, v4, s) := readGroups 0 8 s
  if head.length = 8 then some (ofGroups head, s)
  else if v4 then none
  else do
    let s ← readChar ':' s
    let s ← readChar ':' s
    let (tail, _, s) := readGroups 0 (8 - (head.length + 1)) s
    return (ofGroups (head ++ .replicate (8 - head.length - tail.length) 0 ++ tail), s)

/-- `s.parse::<IpAddr>().ok()`. -/
def parse (s : List Char) : Option IpAddr :=
  match (readIpv4 s).map (fun r => (IpAddr.v4 r.1, r.2)) <|>
    (readIpv6 s).map (fun r => (IpAddr.v6 r.1, r.2)) with
  | some (ip, []) => some ip
  | _ => none

/-! ### Written differently -/

variable {base n m : ℕ} {sep c : Char} {parts parts' segs pre post : List ℕ} {s : List Char}

/-- The number that some digits spell. -/
def value (base : ℕ) (s : List Char) : ℕ :=
  s.foldl (fun n c => n * base + (digitVal 16 c).getD 0) 0

lemma digitVal_digitChar : ∀ d < 16, digitVal 16 (Nat.digitChar d) = some d := by decide

lemma value_toDigits (hb : 1 < base) (hb' : base ≤ 16) (n : ℕ) :
    value base (Nat.toDigits base n) = n := by
  induction n using Nat.strong_induction_on with
  | _ n ih =>
    have hlast (d : ℕ) (hd : d < base) (l : List Char) :
        value base (l ++ [Nat.digitChar d]) = value base l * base + d := by
      rw [value, List.foldl_append, List.foldl_cons, List.foldl_nil,
        digitVal_digitChar d (by omega), Option.getD_some, value]
    rw [Nat.toDigits_eq_if hb]
    split_ifs with hn
    · rw [← List.nil_append [Nat.digitChar n], hlast n hn, value, List.foldl_nil, Nat.zero_mul,
        Nat.zero_add]
    · rw [hlast _ (Nat.mod_lt n (by omega)), ih _ (Nat.div_lt_self (by omega) hb),
        Nat.div_add_mod']

lemma mem_toDigits (hb : 1 < base) (h : c ∈ Nat.toDigits base n) :
    ∃ d < base, c = Nat.digitChar d := by
  induction n using Nat.strong_induction_on with
  | _ n ih =>
    rw [Nat.toDigits_eq_if hb] at h
    split_ifs at h with hn
    · exact ⟨n, hn, List.mem_singleton.mp h⟩
    · rcases List.mem_append.mp h with h | h
      · exact ih _ (Nat.div_lt_self (by omega) hb) h
      · exact ⟨_, Nat.mod_lt n (by omega), List.mem_singleton.mp h⟩

/-- A mark that is no digit. -/
structure Separator (base : ℕ) (sep : Char) : Prop where
  lt : 1 < base
  le : base ≤ 16
  ne : ∀ d < base, Nat.digitChar d ≠ sep

lemma dot_separator : Separator 10 '.' := ⟨by decide, by decide, by decide⟩

lemma colon_separator : Separator 16 ':' := ⟨by decide, by decide, by decide⟩

lemma Separator.not_mem (h : Separator base sep) (n : ℕ) : sep ∉ Nat.toDigits base n := by
  intro hmem
  obtain ⟨d, hd, hc⟩ := mem_toDigits h.lt hmem
  exact h.ne d hd hc.symm

lemma Separator.splitOn (h : Separator base sep) (hne : parts ≠ []) :
    (joined base sep parts).splitOn sep = parts.map (Nat.toDigits base) := by
  refine List.splitOn_intercalate sep (fun l hl => ?_) (by simpa using hne)
  obtain ⟨n, -, rfl⟩ := List.mem_map.mp hl
  exact h.not_mem n

lemma map_value (h : Separator base sep) (parts : List ℕ) :
    (parts.map (Nat.toDigits base)).map (value base) = parts := by
  rw [List.map_map]
  exact List.map_id'' (value_toDigits h.lt h.le) parts

lemma Separator.joined_injective (h : Separator base sep) (hne : parts ≠ [])
    (hne' : parts' ≠ []) (heq : joined base sep parts = joined base sep parts') :
    parts = parts' := by
  have hsplit := congrArg (List.splitOn sep) heq
  rw [h.splitOn hne, h.splitOn hne'] at hsplit
  rw [← map_value h parts, hsplit, map_value h]

lemma mem_joined (h : Separator base sep) (hc : c ∈ joined base sep parts) :
    c = sep ∨ ∃ d < base, c = Nat.digitChar d := by
  induction parts with
  | nil => cases hc
  | cons n parts ih =>
    rw [joined, List.map_cons] at hc
    by_cases hnil : parts = []
    · rw [hnil, List.map_nil, List.intercalate_singleton] at hc
      exact .inr (mem_toDigits h.lt hc)
    · rw [List.intercalate_cons_of_ne_nil (by simpa using hnil)] at hc
      rcases List.mem_append.mp hc with hc | hc
      · rcases List.mem_append.mp hc with hc | hc
        · exact .inr (mem_toDigits h.lt hc)
        · exact .inl (List.mem_singleton.mp hc)
      · exact ih hc

lemma not_mem_joined (h : Separator base sep) (hne : c ≠ sep)
    (hdigit : ∀ d < base, Nat.digitChar d ≠ c) : c ∉ joined base sep parts := by
  intro hc
  rcases mem_joined h hc with hsep | ⟨d, hd, hc⟩
  · exact hne hsep
  · exact hdigit d hd hc.symm

/-! ### The zeros that are left out -/

/-- The groups before and after the ones that are left out. -/
def groupsOf (s : List Char) : List ℕ × List ℕ :=
  let parts := s.splitOn ':'
  ((parts.takeWhile (· ≠ [])).map (value 16),
    ((parts.dropWhile (· ≠ [])).filter (· ≠ [])).map (value 16))

lemma filter_splitOn (parts : List ℕ) :
    ((joined 16 ':' parts).splitOn ':').filter (· ≠ []) = parts.map (Nat.toDigits 16) := by
  by_cases hnil : parts = []
  · rw [hnil]
    rfl
  · rw [colon_separator.splitOn hnil, List.filter_eq_self]
    intro l hl
    obtain ⟨n, -, rfl⟩ := List.mem_map.mp hl
    simp

lemma groupsOf_all (hne : segs ≠ []) : groupsOf (joined 16 ':' segs) = (segs, []) := by
  have hfull : ∀ l ∈ segs.map (Nat.toDigits 16), decide (l ≠ []) = true := by
    intro l hl
    obtain ⟨n, -, rfl⟩ := List.mem_map.mp hl
    simp
  rw [groupsOf, colon_separator.splitOn hne]
  rw [List.takeWhile_eq_self_iff.mpr hfull, List.dropWhile_eq_nil_iff.mpr hfull,
    map_value colon_separator]
  rfl

lemma groupsOf_colons (pre post : List ℕ) :
    groupsOf (joined 16 ':' pre ++ ':' :: ':' :: joined 16 ':' post) = (pre, post) := by
  have hsplit : (joined 16 ':' pre ++ ':' :: ':' :: joined 16 ':' post).splitOn ':' =
      (joined 16 ':' pre).splitOn ':' ++ [] :: (joined 16 ':' post).splitOn ':' := by
    rw [List.splitOn_append_cons_self, ← List.nil_append (':' :: joined 16 ':' post),
      List.splitOn_append_cons_self, List.splitOn_nil, List.singleton_append]
  have hpost : (((joined 16 ':' post).splitOn ':').filter (· ≠ [])).map (value 16) = post := by
    rw [filter_splitOn, map_value colon_separator]
  rw [groupsOf, hsplit]
  by_cases hnil : pre = []
  · subst hnil
    have hjoin : (joined 16 ':' []).splitOn ':' = [[]] := rfl
    rw [hjoin]
    simpa using hpost
  · have hfull : ∀ l ∈ pre.map (Nat.toDigits 16), decide (l ≠ []) = true := by
      intro l hl
      obtain ⟨n, -, rfl⟩ := List.mem_map.mp hl
      simp
    rw [colon_separator.splitOn hnil, List.takeWhile_append_of_pos hfull,
      List.dropWhile_append_of_pos hfull]
    simpa [map_value colon_separator] using hpost

lemma take_zerosAt {start len : ℕ} (h : len ≤ zerosAt segs start) :
    (segs.drop start).take len = .replicate len 0 := by
  have hprefix := List.takeWhile_prefix (l := segs.drop start) fun n => decide (n = 0)
  have htake : (segs.drop start).take len =
      ((segs.drop start).takeWhile fun n => decide (n = 0)).take len := by
    rw [List.prefix_iff_eq_take.mp hprefix, List.take_take]
    exact congrArg (List.take · _) (Nat.min_eq_left h).symm
  refine List.eq_replicate_iff.mpr ⟨?_, fun n hn => ?_⟩
  · rw [List.length_take]
    exact Nat.min_eq_left (h.trans hprefix.length_le)
  · rw [htake] at hn
    exact of_decide_eq_true
      (List.mem_takeWhile_imp (p := fun n => decide (n = 0)) (List.mem_of_mem_take hn))

lemma longestZeros_le (segs : List ℕ) :
    (longestZeros segs).2 ≤ zerosAt segs (longestZeros segs).1 := by
  have hfold : ∀ (starts : List ℕ) (best : ℕ × ℕ), best.2 ≤ zerosAt segs best.1 →
      (starts.foldl (fun best start =>
        if best.2 < zerosAt segs start then (start, zerosAt segs start) else best) best).2 ≤
      zerosAt segs (starts.foldl (fun best start =>
        if best.2 < zerosAt segs start then (start, zerosAt segs start) else best) best).1 := by
    intro starts
    induction starts with
    | nil => exact fun best h => h
    | cons start starts ih =>
      intro best h
      rw [List.foldl_cons]
      split_ifs
      · exact ih _ le_rfl
      · exact ih _ h
  exact hfold _ (0, 0) (Nat.zero_le _)

/-- The groups with the zeros put back. -/
def rebuild (g : List ℕ × List ℕ) : List ℕ :=
  g.1 ++ .replicate (8 - g.1.length - g.2.length) 0 ++ g.2

lemma rebuild_display (h : segs.length = 8) : rebuild (groupsOf (displaySegments segs)) = segs := by
  unfold displaySegments
  dsimp only
  split_ifs with hrow
  · obtain ⟨start, hstart⟩ : ∃ start, (longestZeros segs).1 = start := ⟨_, rfl⟩
    obtain ⟨len, hlen⟩ : ∃ len, (longestZeros segs).2 = len := ⟨_, rfl⟩
    have hzeros := take_zerosAt (longestZeros_le segs)
    rw [hstart, hlen] at *
    have hfit := congrArg List.length hzeros
    rw [List.length_take, List.length_drop, List.length_replicate, h] at hfit
    have hrest : segs.drop (start + len) = (segs.drop start).drop len := by
      rw [List.drop_drop]
    have hcount : 8 - (segs.take start).length - (segs.drop (start + len)).length = len := by
      rw [List.length_take, List.length_drop, h]
      omega
    rw [groupsOf_colons, rebuild, hcount, ← hzeros, hrest, List.append_assoc,
      List.take_append_drop, List.take_append_drop]
  · have hne : segs ≠ [] := List.ne_nil_of_length_pos (by omega)
    rw [groupsOf_all hne, rebuild, h]
    simp

lemma displaySegments_injective {segs' : List ℕ} (h : segs.length = 8) (h' : segs'.length = 8)
    (heq : displaySegments segs = displaySegments segs') : segs = segs' := by
  rw [← rebuild_display h, heq, rebuild_display h']

/-! ### Different addresses -/

lemma octets_injective {a b : BitVec 32} (h : octets a = octets b) : a = b := by
  have ha := a.isLt
  have hb := b.isLt
  simp only [octets, List.cons.injEq] at h
  exact BitVec.eq_of_toNat_eq (by omega)

lemma segments_injective {a b : BitVec 128} (h : segments a = segments b) : a = b := by
  have ha := a.isLt
  have hb := b.isLt
  simp only [segments, List.cons.injEq] at h
  exact BitVec.eq_of_toNat_eq (by omega)

lemma colon_not_mem_octets (a : BitVec 32) : ':' ∉ joined 10 '.' (octets a) :=
  not_mem_joined dot_separator (by decide) (by decide)

lemma dot_mem_octets (a : BitVec 32) : '.' ∈ joined 10 '.' (octets a) := by
  simp [joined, octets]

lemma dot_not_mem_displaySegments (segs : List ℕ) : '.' ∉ displaySegments segs := by
  have hpart (parts) : '.' ∉ joined 16 ':' parts :=
    not_mem_joined colon_separator (by decide) (by decide)
  unfold displaySegments
  dsimp only
  split_ifs
  · simp [hpart]
  · exact hpart segs

lemma colon_mem_displaySegments (h : segs.length = 8) : ':' ∈ displaySegments segs := by
  unfold displaySegments
  dsimp only
  split_ifs
  · simp
  · by_contra hc
    -- without a colon there would be one group only
    have hsplit := colon_separator.splitOn (List.ne_nil_of_length_pos (by omega : 0 < segs.length))
    rw [List.splitOn_eq_singleton hc] at hsplit
    have hlen := congrArg List.length hsplit
    rw [List.length_map, h] at hlen
    cases hlen

lemma toIpv4Mapped_injective {a b : BitVec 128} {v : BitVec 32} (ha : toIpv4Mapped a = some v)
    (hb : toIpv4Mapped b = some v) : a = b := by
  unfold toIpv4Mapped at ha hb
  split_ifs at ha hb with hia hib
  have hlow := (Option.some.inj ha).trans (Option.some.inj hb).symm
  have hmod := congrArg BitVec.toNat hlow
  rw [BitVec.toNat_ofNat, BitVec.toNat_ofNat] at hmod
  exact BitVec.eq_of_toNat_eq (by omega)

lemma joined_octets_injective {a b : BitVec 32}
    (h : joined 10 '.' (octets a) = joined 10 '.' (octets b)) : a = b :=
  octets_injective (dot_separator.joined_injective (List.cons_ne_nil _ _) (List.cons_ne_nil _ _) h)

lemma display_mapped {a : BitVec 128} {v : BitVec 32} (h : toIpv4Mapped a = some v) :
    (IpAddr.v6 a).display = "::ffff:".toList ++ joined 10 '.' (octets v) := by
  rw [IpAddr.display, h]

lemma display_unmapped {a : BitVec 128} (h : toIpv4Mapped a = none) :
    (IpAddr.v6 a).display = displaySegments (segments a) := by
  rw [IpAddr.display, h]

lemma colon_mem_display (a : BitVec 128) : ':' ∈ (IpAddr.v6 a).display := by
  cases h : toIpv4Mapped a with
  | none =>
    rw [display_unmapped h]
    exact colon_mem_displaySegments rfl
  | some v =>
    rw [display_mapped h]
    exact List.mem_append_left _ (by decide)

lemma dot_mem_display {a : BitVec 128} : '.' ∈ (IpAddr.v6 a).display ↔ toIpv4Mapped a ≠ none := by
  cases h : toIpv4Mapped a with
  | none =>
    rw [display_unmapped h]
    exact iff_of_false (dot_not_mem_displaySegments _) (by simp)
  | some v =>
    rw [display_mapped h]
    exact iff_of_true (List.mem_append_right _ (dot_mem_octets v)) (by simp)

lemma display_v6_injective {a b : BitVec 128} (h : (IpAddr.v6 a).display = (IpAddr.v6 b).display) :
    a = b := by
  have hdots : toIpv4Mapped a ≠ none ↔ toIpv4Mapped b ≠ none := by
    rw [← dot_mem_display, h, dot_mem_display]
  cases ha : toIpv4Mapped a with
  | none =>
    have hb : toIpv4Mapped b = none := not_not.mp (mt hdots.mpr (not_not.mpr ha))
    rw [display_unmapped ha, display_unmapped hb] at h
    exact segments_injective (displaySegments_injective rfl rfl h)
  | some u =>
    have hu : toIpv4Mapped a ≠ none := by
      rw [ha]
      exact Option.some_ne_none u
    obtain ⟨v, hb⟩ := Option.ne_none_iff_exists'.mp (hdots.mp hu)
    rw [display_mapped ha, display_mapped hb] at h
    obtain rfl := joined_octets_injective (List.append_cancel_left h)
    exact toIpv4Mapped_injective ha hb

/-- **Different addresses are written differently.** -/
theorem display_injective {a b : IpAddr} (h : a.display = b.display) : a = b := by
  cases a with
  | v4 a =>
    cases b with
    | v4 b => rw [joined_octets_injective h]
    | v6 b =>
      have hcolon := colon_mem_display b
      rw [← h] at hcolon
      exact absurd hcolon (colon_not_mem_octets a)
  | v6 a =>
    cases b with
    | v4 b =>
      have hcolon := colon_mem_display a
      rw [h] at hcolon
      exact absurd hcolon (colon_not_mem_octets b)
    | v6 b => rw [display_v6_injective h]

end VoiceHub.Lib.Ip
