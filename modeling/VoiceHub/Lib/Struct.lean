import Mathlib
import VoiceHub.Lib.Json

/-!
Structs read out of JSON, the way a derived deserializer does it: from an object in which no field
comes twice, whatever else is in it, or from an array of the fields in their order.
-/

namespace VoiceHub.Lib.Json

/-- What there is of each field. -/
def asStruct (names : List String) : Value → Option (String → Option Value)
  | .obj fields =>
    if names.all fun n => fields.countP (fun p => p.1 = n) ≤ 1 then some fun n => lastField n fields
    else none
  | .arr xs => if xs.length ≤ names.length then some fun n => (names.zip xs).lookup n else none
  | _ => none

/-- An optional value; `null` is none. -/
def asOption {α : Type} (read : Option Value → Option α) : Option Value → Option (Option α)
  | some .null => some none
  | v => (read v).map some

/-- A whole number within the bounds of its type. -/
def asInt (lo hi : ℤ) (v : Option Value) : Option ℤ := (asNumber v).filter fun n => lo ≤ n ∧ n ≤ hi

/-- Each element, read. -/
def asVec {α : Type} (read : Value → Option α) (v : Option Value) : Option (List α) :=
  (asArray v).bind (·.mapM read)

variable {fields : List (String × Option Value)} {names : List String} {f : String → Option Value}
  {α β : Type}

lemma asStruct_object (h : (fields.map Prod.fst).Nodup) :
    asStruct names (object fields) = some fun n => (fields.lookup n).join := by
  have hkeys : ∀ n, (fields.filterMap fun p => p.2.map (p.1, ·)).countP (fun p => p.1 = n) ≤ 1 := by
    intro n
    have hcount : (fields.map Prod.fst).count n ≤ 1 := List.nodup_iff_count_le_one.mp h n
    refine le_trans ?_ hcount
    rw [List.count, List.countP_map, List.countP_filterMap]
    refine List.countP_mono_left fun p _ hp => ?_
    cases ho : p.2 with
    | none =>
      rw [ho] at hp
      cases hp
    | some v => simpa [ho] using hp
  have hall : names.all (fun n => (fields.filterMap fun p => p.2.map (p.1, ·)).countP
      (fun p => p.1 = n) ≤ 1) = true :=
    List.all_eq_true.mpr fun n _ => decide_eq_true (hkeys n)
  rw [object, asStruct, if_pos hall]
  congr 1
  funext n
  exact field_object h

lemma asInt_num {lo hi n : ℤ} (h : lo ≤ n ∧ n ≤ hi) : asInt lo hi (some (.num n)) = some n := by
  rw [asInt, asNumber, Option.filter_some, decide_eq_true h, if_pos rfl]

lemma asVec_arr {read : Value → Option β} {json : α → Value} {g : α → β} {as : List α}
    (h : ∀ a ∈ as, read (json a) = some (g a)) :
    asVec read (some (.arr (as.map json))) = some (as.map g) := by
  rw [asVec, asArray, Option.bind_some]
  induction as with
  | nil => rfl
  | cons a as ih =>
    have htail := ih fun b hb => h b (List.mem_cons_of_mem _ hb)
    simp [h a List.mem_cons_self, htail]

end VoiceHub.Lib.Json
