import Mathlib
import VoiceHub.Lib.HashMap

/-!
Hash maps whose values carry their own keys.
-/

namespace VoiceHub.Lib

/-- Every value is stored under its own key. -/
structure Keyed {K V : Type} [DecidableEq K] (key : V → K) where
  map : HashMap K V
  keyed : ∀ {k v}, map.lookup k = some v → key v = k

namespace Keyed

variable {K V : Type} [DecidableEq K] {key : V → K} (m : Keyed key) {k a : K} {v : V}

def empty : Keyed key := ⟨∅, by simp⟩

def get (k : K) : Option V := m.map.lookup k

def values : List V := HashMap.values m.map

/-- `m.insert(key(v), v)`. -/
def insert (v : V) : Keyed key where
  map := AList.insert (key v) v m.map
  keyed := by
    intro a w h
    rw [HashMap.lookup_insert] at h
    split at h
    · next ha => cases h; exact ha.symm
    · exact m.keyed h

def remove (k : K) : Keyed key where
  map := AList.erase k m.map
  keyed := by
    intro a w h
    rw [HashMap.lookup_erase] at h
    split at h
    · cases h
    · exact m.keyed h

@[simp] lemma get_empty : (empty : Keyed key).get k = none := rfl

lemma get_insert : (m.insert v).get a = if a = key v then some v else m.get a :=
  HashMap.lookup_insert ..

lemma get_remove : (m.remove k).get a = if a = k then none else m.get a :=
  HashMap.lookup_erase ..

lemma get_removeAll (ks : List K) :
    (ks.foldl remove m).get a = if a ∈ ks then none else m.get a := by
  induction ks generalizing m with
  | nil => simp
  | cons k ks ih =>
    rw [List.foldl_cons, ih, get_remove]
    by_cases hk : a = k <;> by_cases ha : a ∈ ks <;> simp [hk, ha]

lemma key_of_get (h : m.get k = some v) : key v = k := m.keyed h

lemma mem_values : v ∈ m.values ↔ m.get (key v) = some v := by
  rw [values, HashMap.mem_values]
  exact ⟨fun ⟨k, h⟩ => by rw [m.key_of_get h]; exact h, fun h => ⟨_, h⟩⟩

lemma nodup_keys : (m.values.map key).Nodup := by
  have h : m.values.map key = m.map.keys := by
    rw [values, HashMap.values, List.map_map, AList.keys, List.keys]
    apply List.map_congr_left
    rintro ⟨k, v⟩ hkv
    exact m.keyed (AList.mem_lookup_iff.mpr hkv)
  rw [h]
  exact m.map.keys_nodup

lemma nodup_values : m.values.Nodup := m.nodup_keys.of_map

end Keyed

end VoiceHub.Lib
