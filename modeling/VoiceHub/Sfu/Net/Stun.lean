import VoiceHub.Lib.Checked
import VoiceHub.Lib.Percent
import VoiceHub.Lib.Text

/-!
Whose connection a STUN binding request is for: the local ufrag in its `USERNAME`.

The attributes are walked from one to the next. Each has its length before it and is padded to
a multiple of four bytes, so what the walk sees is again a list of attributes.
-/

namespace VoiceHub.Sfu.Net

open VoiceHub.Lib VoiceHub.Lib.Checked VoiceHub.Lib.Percent

/-! ### The reader -/

/-- `u16::from_be_bytes([b[i], b[i + 1]])`. -/
def beU16 (b : List UInt8) (i : ℕ) : Except (Stop Empty) ℕ := do
  let hi ← index b i
  let lo ← index b (i + 1)
  pure (hi.toNat * 256 + lo.toNat)

/-- `b.get(from..until)`. -/
def getRange (b : List UInt8) (start stop : ℕ) : Option (List UInt8) :=
  if start ≤ stop ∧ stop ≤ b.length then some ((b.take stop).drop start) else none

/-- `user.split(':').next().unwrap_or(user)`. -/
def beforeColon (user : List Char) : List Char := (user.splitOn ':').head?.getD user

/-- The loop over the attributes, from byte `i` on. -/
def findUsername (attrs : List UInt8) (i : ℕ) : Except (Stop Empty) (Option (List Char)) :=
  if i + 4 ≤ attrs.length then do
    let typ ← beU16 attrs i
    let alen ← beU16 attrs (i + 2)
    match getRange attrs (i + 4) (i + 4 + alen) with
    | none => pure none
    | some val =>
      if typ = 0x0006 then pure ((fromUtf8 val).map beforeColon)
      else findUsername attrs (i + (4 + (alen + 3) / 4 * 4))
  else pure none
termination_by attrs.length - i

/-- `stun_local_ufrag`: the local ufrag from `USERNAME` ("local:remote"). -/
def stunLocalUfrag (b : List UInt8) : Except (Stop Empty) (Option (List Char)) :=
  if b.length < 20 then pure none
  else do
    let first ← index b 0
    if first &&& 0xC0 ≠ 0 then pure none
    else
      match getRange b 4 8 with
      | none => throw .panic
      | some cookie =>
        if cookie ≠ [0x21, 0x12, 0xA4, 0x42] then pure none
        else do
          let len ← beU16 b 2
          match getRange b 20 (20 + len) with
          | none => pure none
          | some attrs => findUsername attrs 0

/-! ### Messages -/

/-- An attribute, with the bytes that pad its value. -/
structure Attr where
  typ : UInt16
  value : List UInt8
  padding : List UInt8
  length_lt : value.length < 2 ^ 16
  padded : padding.length = (4 - value.length % 4) % 4

/-- `u16::to_be_bytes`. -/
def toBe (n : ℕ) : List UInt8 := [.ofNat (n / 256), .ofNat n]

def Attr.bytes (a : Attr) : List UInt8 :=
  toBe a.typ.toNat ++ toBe a.value.length ++ a.value ++ a.padding

/-- A well-formed message: its first two bits are zero, and its length is that of the
attributes. -/
structure Stun where
  class_ : UInt8
  method : UInt8
  transactionId : Vector UInt8 12
  attrs : List Attr
  class_lt : class_ < 0x40
  length_lt : (attrs.flatMap Attr.bytes).length < 2 ^ 16

def Stun.bytes (m : Stun) : List UInt8 :=
  m.class_ :: m.method :: toBe (m.attrs.flatMap Attr.bytes).length ++ [0x21, 0x12, 0xA4, 0x42] ++
    m.transactionId.toList ++ m.attrs.flatMap Attr.bytes

/-- The first `USERNAME`. -/
def Stun.username (m : Stun) : Option (List UInt8) :=
  (m.attrs.find? fun a => a.typ = 0x0006).map Attr.value

/-! ### No access is out of range -/

variable {b attrs pre mid post : List UInt8} {i typ alen : ℕ}

lemma beU16_ok (h : i + 2 ≤ b.length) : ∃ n, beU16 b i = .ok n := by
  have hhi : b[i]? = some b[i] := List.getElem?_eq_getElem (by omega)
  have hlo : b[i + 1]? = some b[i + 1] := List.getElem?_eq_getElem (by omega)
  rw [beU16, index_ok hhi, index_ok hlo]
  exact ⟨_, rfl⟩

lemma findUsername_turn (h : i + 4 ≤ attrs.length) (htyp : beU16 attrs i = .ok typ)
    (halen : beU16 attrs (i + 2) = .ok alen) :
    findUsername attrs i = match getRange attrs (i + 4) (i + 4 + alen) with
      | none => .ok none
      | some val =>
        if typ = 0x0006 then .ok ((fromUtf8 val).map beforeColon)
        else findUsername attrs (i + (4 + (alen + 3) / 4 * 4)) := by
  rw [findUsername, if_pos h, htyp, halen]
  rfl

lemma findUsername_ok (attrs : List UInt8) (i : ℕ) : ∃ r, findUsername attrs i = .ok r := by
  induction hleft : attrs.length - i using Nat.strong_induction_on generalizing i with
  | _ left ih =>
    by_cases h : i + 4 ≤ attrs.length
    · obtain ⟨typ, htyp⟩ := beU16_ok (b := attrs) (by omega : i + 2 ≤ attrs.length)
      obtain ⟨alen, halen⟩ := beU16_ok (b := attrs) (by omega : i + 2 + 2 ≤ attrs.length)
      rw [findUsername_turn h htyp halen]
      split
      · exact ⟨_, rfl⟩
      · split
        · exact ⟨_, rfl⟩
        · exact ih _ (by omega) _ rfl
    · exact ⟨none, by rw [findUsername, if_neg h]; rfl⟩

lemma stunLocalUfrag_header {first : UInt8} {len : ℕ} (h : 20 ≤ b.length) (hfirst : b[0]? = some first)
    (hlen : beU16 b 2 = .ok len) :
    stunLocalUfrag b =
      if first &&& 0xC0 ≠ 0 then .ok none
      else if (b.take 8).drop 4 ≠ [0x21, 0x12, 0xA4, 0x42] then .ok none
      else match getRange b 20 (20 + len) with
        | none => .ok none
        | some attrs => findUsername attrs 0 := by
  have hcookie : getRange b 4 8 = some ((b.take 8).drop 4) := if_pos (by omega)
  rw [stunLocalUfrag, if_neg (by omega), index_ok hfirst, hcookie, hlen]
  rfl

/-- **Nothing is read out of range**, whatever the bytes. -/
theorem stunLocalUfrag_ok (b : List UInt8) : ∃ r, stunLocalUfrag b = .ok r := by
  by_cases h : b.length < 20
  · exact ⟨none, if_pos h⟩
  have hfirst : b[0]? = some b[0] := List.getElem?_eq_getElem (by omega)
  obtain ⟨len, hlen⟩ := beU16_ok (b := b) (by omega : 2 + 2 ≤ b.length)
  rw [stunLocalUfrag_header (by omega) hfirst hlen]
  split_ifs
  · exact ⟨none, rfl⟩
  · exact ⟨none, rfl⟩
  · split
    · exact ⟨none, rfl⟩
    · exact findUsername_ok _ _

/-! ### Well-formed messages -/

@[simp] lemma length_toBe (n : ℕ) : (toBe n).length = 2 := rfl

lemma beU16_toBe (pre post : List UInt8) {n : ℕ} (hn : n < 2 ^ 16) :
    beU16 (pre ++ toBe n ++ post) pre.length = .ok n := by
  have hhi : (pre ++ toBe n ++ post)[pre.length]? = some (.ofNat (n / 256)) := by
    simp [toBe]
  have hlo : (pre ++ toBe n ++ post)[pre.length + 1]? = some (.ofNat n) := by
    simp [toBe]
  rw [beU16, index_ok hhi, index_ok hlo]
  refine congrArg Except.ok ?_
  rw [UInt8.toNat_ofNat', UInt8.toNat_ofNat']
  omega

lemma getRange_append (pre mid post : List UInt8) {start stop : ℕ} (hstart : start = pre.length)
    (hstop : stop = pre.length + mid.length) :
    getRange (pre ++ mid ++ post) start stop = some mid := by
  subst hstart hstop
  rw [getRange, if_pos ⟨by omega, by simp only [List.length_append]; omega⟩,
    ← List.length_append, List.take_left, List.drop_left]

lemma Attr.length_bytes (a : Attr) :
    a.bytes.length = 4 + (a.value.length + 3) / 4 * 4 := by
  have hpadded := a.padded
  simp only [Attr.bytes, List.length_append, length_toBe]
  omega

lemma findUsername_attr (a : Attr) (pre post : List UInt8) :
    findUsername (pre ++ a.bytes ++ post) pre.length =
      if a.typ = 0x0006 then .ok ((fromUtf8 a.value).map beforeColon)
      else findUsername (pre ++ a.bytes ++ post) (pre ++ a.bytes).length := by
  have hlen := a.length_bytes
  have htyp : beU16 (pre ++ a.bytes ++ post) pre.length = .ok a.typ.toNat := by
    have h := beU16_toBe pre (toBe a.value.length ++ a.value ++ a.padding ++ post) a.typ.toNat_lt
    simpa only [Attr.bytes, List.append_assoc] using h
  have halen : beU16 (pre ++ a.bytes ++ post) (pre.length + 2) = .ok a.value.length := by
    have h := beU16_toBe (pre ++ toBe a.typ.toNat) (a.value ++ a.padding ++ post) a.length_lt
    simpa only [Attr.bytes, List.append_assoc, List.length_append, length_toBe] using h
  have hval : getRange (pre ++ a.bytes ++ post) (pre.length + 4)
      (pre.length + 4 + a.value.length) = some a.value := by
    have hpre : pre.length + 4 = (pre ++ toBe a.typ.toNat ++ toBe a.value.length).length := by
      simp only [List.length_append, length_toBe]
    have h := getRange_append (pre ++ toBe a.typ.toNat ++ toBe a.value.length) a.value
      (a.padding ++ post) hpre (congrArg (· + a.value.length) hpre)
    simpa only [Attr.bytes, List.append_assoc] using h
  have hroom : pre.length + 4 ≤ (pre ++ a.bytes ++ post).length := by
    simp only [List.length_append]
    omega
  have husername : a.typ.toNat = 0x0006 ↔ a.typ = 0x0006 := UInt16.toNat_inj (b := 0x0006)
  rw [findUsername_turn hroom htyp halen, hval, List.length_append, hlen]
  exact if_congr husername rfl rfl

/-- What is found in a list of attributes: the first `USERNAME`. -/
lemma findUsername_attrs (as : List Attr) (pre : List UInt8) :
    findUsername (pre ++ as.flatMap Attr.bytes) pre.length =
      .ok ((as.find? fun a => a.typ = 0x0006).bind fun a => (fromUtf8 a.value).map beforeColon) := by
  induction as generalizing pre with
  | nil =>
    rw [List.flatMap_nil, List.append_nil, findUsername, if_neg (by omega)]
    rfl
  | cons a as ih =>
    rw [List.flatMap_cons, ← List.append_assoc, findUsername_attr]
    by_cases husername : a.typ = 0x0006
    · rw [if_pos husername, List.find?_cons_of_pos (by simpa using husername)]
      rfl
    · rw [if_neg husername, ih, List.find?_cons_of_neg (by simpa using husername)]

lemma beforeColon_eq (user : List Char) : beforeColon user = user.takeWhile (· ≠ ':') := by
  rw [beforeColon]
  by_cases h : ':' ∈ user
  · obtain ⟨before, after, rfl, hbefore⟩ := List.eq_append_cons_of_mem h
    rw [List.splitOn_append_cons_self_of_not_mem hbefore, Text.takeWhile_sep hbefore]
    rfl
  · have hall : user.takeWhile (· ≠ ':') = user := List.takeWhile_eq_self_iff.mpr fun c hc => by
      simp only [decide_eq_true_eq]
      rintro rfl
      exact h hc
    rw [List.splitOn_eq_singleton h, hall]
    rfl

lemma class_bits : ∀ n < 0x40, UInt8.ofNat n &&& 0xC0 = 0 := by decide

lemma stunLocalUfrag_message (m : Stun) (trailing : List UInt8) :
    stunLocalUfrag (m.bytes ++ trailing) =
      .ok (m.username.bind fun value => (fromUtf8 value).map beforeColon) := by
  have hbits : m.class_ &&& 0xC0 = 0 := by
    rw [← m.class_.ofNat_toNat]
    exact class_bits _ (UInt8.lt_iff_toNat_lt.mp m.class_lt)
  have hcookie : ((m.bytes ++ trailing).take 8).drop 4 = [0x21, 0x12, 0xA4, 0x42] := rfl
  have hlen : beU16 (m.bytes ++ trailing) 2 = .ok (m.attrs.flatMap Attr.bytes).length := by
    have h := beU16_toBe [m.class_, m.method] ([0x21, 0x12, 0xA4, 0x42] ++
      m.transactionId.toList ++ m.attrs.flatMap Attr.bytes ++ trailing) m.length_lt
    simp only [Stun.bytes, List.append_assoc, List.cons_append, List.nil_append] at h ⊢
    exact h
  have hattrs : getRange (m.bytes ++ trailing) 20 (20 + (m.attrs.flatMap Attr.bytes).length) =
      some (m.attrs.flatMap Attr.bytes) := by
    have hpre : (m.class_ :: m.method :: toBe (m.attrs.flatMap Attr.bytes).length ++
        [0x21, 0x12, 0xA4, 0x42] ++ m.transactionId.toList).length = 20 := by
      simp only [List.length_append, List.length_cons, List.length_nil, length_toBe,
        Vector.length_toList]
    exact getRange_append _ _ trailing hpre.symm (by rw [hpre])
  have hroom : 20 ≤ (m.bytes ++ trailing).length := by
    simp only [Stun.bytes, List.length_append, List.length_cons, List.length_nil, length_toBe,
      Vector.length_toList]
    omega
  rw [stunLocalUfrag_header hroom rfl hlen, if_neg (not_not_intro hbits),
    if_neg (not_not_intro hcookie), hattrs]
  have hfind := findUsername_attrs m.attrs []
  rw [List.nil_append, List.length_nil] at hfind
  rw [Stun.username, Option.bind_map]
  exact hfind

/-- **The local ufrag of a message.** No bytes are read out of range, and of a well-formed
message, with any bytes after it, the first `USERNAME` up to its first colon is returned, if it
is text. -/
theorem local_ufrag :
    (∀ b, ∃ r, stunLocalUfrag b = .ok r) ∧
    ∀ (m : Stun) (trailing : List UInt8),
      stunLocalUfrag (m.bytes ++ trailing) =
        .ok (m.username.bind fun value => (fromUtf8 value).map (·.takeWhile (· ≠ ':'))) := by
  refine ⟨stunLocalUfrag_ok, fun m trailing => ?_⟩
  rw [stunLocalUfrag_message, funext beforeColon_eq]

/-- A `USERNAME` that is not text, and another one that is. -/
def shadowed : Stun where
  class_ := 0
  method := 1
  transactionId := .replicate 12 0
  attrs := [⟨6, [0xff], [0, 0, 0], by decide, by decide⟩,
    ⟨6, [0x61, 0x3a, 0x62], [0], by decide, by decide⟩]
  class_lt := by decide
  length_lt := by decide

/-- The second `USERNAME`, `a:b`, is text, and nothing is returned. -/
theorem shadowed_none :
    (∃ a ∈ shadowed.attrs, a.typ = 0x0006 ∧ fromUtf8 a.value = some "a:b".toList) ∧
      ∀ trailing, stunLocalUfrag (shadowed.bytes ++ trailing) = .ok none := by
  refine ⟨⟨_, List.mem_cons_of_mem _ List.mem_cons_self, rfl, ?_⟩, fun trailing => ?_⟩
  · exact fromUtf8_utf8 "a:b".toList
  · have hfirst : fromUtf8 [0xff] = none := by decide +kernel
    have husername : shadowed.username = some [0xff] := rfl
    rw [stunLocalUfrag_message, husername, Option.bind_some, hfirst]
    rfl

end VoiceHub.Sfu.Net
