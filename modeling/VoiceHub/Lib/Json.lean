import Mathlib

/-!
JSON values: how one is put together from fields that may be left out, and what a reader
gets that keeps every number as a double.

An object is read key by key; where no key comes twice, a field reads as it was put in. An
integer survives exactly if it is a number below `2 ^ 53` times a power of two.
-/

namespace VoiceHub.Lib.Json

/-- A value whose numbers are integers. -/
inductive Value
  | null
  | bool (b : Bool)
  | num (n : ℤ)
  | str (s : String)
  | arr (xs : List Value)
  | obj (fields : List (String × Value))

/-! ## Doubles -/

/-- The double nearest to a natural number, the even one of two. -/
def roundNat (m : ℕ) : ℕ :=
  if m < 2 ^ 53 then m
  else
    let e := m.size - 53
    let q := m / 2 ^ e
    let r := m % 2 ^ e
    if r < 2 ^ (e - 1) ∨ (r = 2 ^ (e - 1) ∧ q % 2 = 0) then q * 2 ^ e else (q + 1) * 2 ^ e

/-- The double nearest to an integer. -/
def toDouble (n : ℤ) : ℤ := n.sign * roundNat n.natAbs

/-- The integer is a double. -/
def IsDouble (n : ℤ) : Prop := ∃ m e : ℕ, m < 2 ^ 53 ∧ n.natAbs = m * 2 ^ e

/-! ## Reading -/

mutual

/-- Maps the numbers in a value. -/
def Value.mapNum (f : ℤ → ℤ) : Value → Value
  | .null => .null
  | .bool b => .bool b
  | .num n => .num (f n)
  | .str s => .str s
  | .arr xs => .arr (mapNums f xs)
  | .obj fields => .obj (mapFields f fields)

def mapNums (f : ℤ → ℤ) : List Value → List Value
  | [] => []
  | v :: vs => v.mapNum f :: mapNums f vs

def mapFields (f : ℤ → ℤ) : List (String × Value) → List (String × Value)
  | [] => []
  | (k, v) :: fields => (k, v.mapNum f) :: mapFields f fields

end

/-- What `JSON.parse` makes of the text of a value. -/
def Value.parsed (v : Value) : Value := v.mapNum toDouble

/-- The last field under a key. -/
def lastField (key : String) : List (String × Value) → Option Value
  | [] => none
  | (k, v) :: fields => (lastField key fields).or (if k = key then some v else none)

/-- `v.key`; `none` is `undefined`. -/
def Value.field (v : Value) (key : String) : Option Value :=
  match v with
  | .obj fields => lastField key fields
  | _ => none

/-- An object of the fields that are not left out. -/
def object (fields : List (String × Option Value)) : Value :=
  .obj (fields.filterMap fun p => p.2.map (p.1, ·))

/-- A field of an object that is read, with a default where it is left out. -/
def orDefault {α : Type} (read : Option Value → Option α) (a : α) : Option Value → Option α
  | none => some a
  | some v => read (some v)

def asString : Option Value → Option String
  | some (.str s) => some s
  | _ => none

def asBool : Option Value → Option Bool
  | some (.bool b) => some b
  | _ => none

def asNumber : Option Value → Option ℤ
  | some (.num n) => some n
  | _ => none

def asArray : Option Value → Option (List Value)
  | some (.arr xs) => some xs
  | _ => none

variable {f : ℤ → ℤ} {v : Value} {fields : List (String × Option Value)} {key : String} {m e : ℕ}
  {n : ℤ}

@[simp] lemma mapNum_null : Value.null.mapNum f = .null := by rw [Value.mapNum]
@[simp] lemma mapNum_bool (b : Bool) : (Value.bool b).mapNum f = .bool b := by rw [Value.mapNum]
@[simp] lemma mapNum_num (n : ℤ) : (Value.num n).mapNum f = .num (f n) := by rw [Value.mapNum]
@[simp] lemma mapNum_str (s : String) : (Value.str s).mapNum f = .str s := by rw [Value.mapNum]

@[simp] lemma mapNum_arr (xs : List Value) :
    (Value.arr xs).mapNum f = .arr (xs.map (Value.mapNum f)) := by
  have h : mapNums f xs = xs.map (Value.mapNum f) := by
    induction xs with
    | nil => rfl
    | cons v xs ih => rw [mapNums, ih, List.map_cons]
  rw [Value.mapNum, h]

lemma mapFields_eq (fields : List (String × Value)) :
    mapFields f fields = fields.map fun p => (p.1, p.2.mapNum f) := by
  induction fields with
  | nil => rfl
  | cons p fields ih => rw [mapFields, ih, List.map_cons]

@[simp] lemma mapNum_object :
    (object fields).mapNum f = object (fields.map fun p => (p.1, p.2.map (Value.mapNum f))) := by
  rw [object, object, Value.mapNum, mapFields_eq, List.filterMap_map, List.map_filterMap]
  congr 2
  funext ⟨k, o⟩
  cases o <;> rfl

lemma field_object (h : (fields.map Prod.fst).Nodup) :
    (object fields).field key = (fields.lookup key).join := by
  induction fields with
  | nil => rfl
  | cons p fields ih =>
    obtain ⟨k, o⟩ := p
    obtain ⟨hk, h⟩ := List.nodup_cons.mp h
    have hrest : lastField key (fields.filterMap fun p => p.2.map (p.1, ·)) =
        (fields.lookup key).join := ih h
    have hcons : (object ((k, o) :: fields)).field key =
        (fields.lookup key).join.or (if k = key then o else none) := by
      rw [← hrest, object, Value.field]
      cases o with
      | none => simp
      | some v => simp [lastField]
    rw [hcons, List.lookup_cons]
    by_cases hkey : k = key
    · subst hkey
      have hnone : fields.lookup k = none := by
        rw [List.lookup_eq_none_iff]
        rintro ⟨k', o'⟩ hmem
        have : k ≠ k' := by
          rintro rfl
          exact hk (List.mem_map.mpr ⟨_, hmem, rfl⟩)
        simpa using this
      simp [hnone]
    · simp [hkey, beq_false_of_ne (Ne.symm hkey)]

/-! ## Exact integers -/

lemma roundNat_dvd (h : 2 ^ 53 ≤ m) : 2 ^ (m.size - 53) ∣ roundNat m := by
  rw [roundNat, if_neg (by omega)]
  dsimp only
  split
  · exact Dvd.intro_left _ rfl
  · exact Dvd.intro_left _ rfl

lemma roundNat_of_dvd (h : 2 ^ 53 ≤ m) (hd : 2 ^ (m.size - 53) ∣ m) : roundNat m = m := by
  have hr : m % 2 ^ (m.size - 53) = 0 := Nat.mod_eq_zero_of_dvd hd
  have hsize : 53 < m.size := Nat.lt_size.mpr h
  rw [roundNat, if_neg (by omega)]
  dsimp only
  rw [hr, if_pos (.inl (Nat.two_pow_pos _))]
  exact Nat.div_mul_cancel hd

lemma roundNat_eq_iff : roundNat m = m ↔ ∃ q e : ℕ, q < 2 ^ 53 ∧ m = q * 2 ^ e := by
  constructor
  · intro h
    rcases Nat.lt_or_ge m (2 ^ 53) with hm | hm
    · exact ⟨m, 0, hm, by omega⟩
    · have hd := roundNat_dvd hm
      rw [h] at hd
      refine ⟨m / 2 ^ (m.size - 53), m.size - 53, ?_, (Nat.div_mul_cancel hd).symm⟩
      have hsize : 53 < m.size := Nat.lt_size.mpr hm
      rw [Nat.div_lt_iff_lt_mul (Nat.two_pow_pos _), ← pow_add]
      have : 53 + (m.size - 53) = m.size := by omega
      rw [this]
      exact Nat.lt_size_self m
  · rintro ⟨q, e, hq, rfl⟩
    rcases Nat.lt_or_ge (q * 2 ^ e) (2 ^ 53) with hm | hm
    · rw [roundNat, if_pos hm]
    · refine roundNat_of_dvd hm (Dvd.dvd.mul_left (Nat.pow_dvd_pow 2 ?_) q)
      have hlt : q * 2 ^ e < 2 ^ (53 + e) := by
        rw [pow_add]
        exact Nat.mul_lt_mul_of_pos_right hq (Nat.two_pow_pos e)
      have hsize := Nat.size_le.mpr hlt
      omega

/-- **Exact integers.** An integer is read as it was written exactly if it is a double. -/
theorem toDouble_eq_iff : toDouble n = n ↔ IsDouble n := by
  have hsign : toDouble n = n ↔ roundNat n.natAbs = n.natAbs := by
    rw [toDouble]
    constructor
    · intro h
      rcases eq_or_ne n 0 with rfl | hn
      · simp [roundNat]
      · have habs := congrArg Int.natAbs h
        rwa [Int.natAbs_mul, Int.natAbs_sign_of_ne_zero hn, Int.natAbs_natCast, Nat.one_mul] at habs
    · intro h
      rw [h, Int.sign_mul_natAbs]
  rw [hsign, roundNat_eq_iff]
  rfl

end VoiceHub.Lib.Json
