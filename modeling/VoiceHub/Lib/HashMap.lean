import Mathlib

/-!
Hash maps: association lists without repeated keys. The order of the entries is the order
of insertion; a hash map promises none, so what iterates over one is given the order by
an `Order`.
-/

namespace VoiceHub.Lib

/-- `HashMap<K, V>`. -/
abbrev HashMap (K V : Type) := AList fun _ : K => V

/-- The order in which a hash map hands out its entries: any permutation. -/
structure Order where
  list : {α : Type} → List α → List α
  perm : ∀ {α : Type} (l : List α), (list l).Perm l

namespace Order

/-- Oldest first. -/
def plain : Order := ⟨fun l => l, fun _ => .refl _⟩

variable (ord : Order) {α : Type} {l : List α}

@[simp] lemma mem_list {a : α} : a ∈ ord.list l ↔ a ∈ l := (ord.perm l).mem_iff

lemma nodup_list : (ord.list l).Nodup ↔ l.Nodup := (ord.perm l).nodup_iff

end Order

namespace HashMap

variable {K V : Type} [DecidableEq K] {m : HashMap K V} {k a : K} {v : V}

/-- `m.values()`. -/
def values (m : HashMap K V) : List V := m.entries.map Sigma.snd

/-- `m.is_empty()`. -/
def isEmpty (m : HashMap K V) : Bool := m.entries.isEmpty

/-- `m.len()`. -/
def len (m : HashMap K V) : ℕ := m.entries.length

lemma lookup_insert (m : HashMap K V) (k a : K) (v : V) :
    (AList.insert k v m).lookup a = if a = k then some v else m.lookup a := by
  split
  · next h => rw [h, AList.lookup_insert]
  · next h => exact AList.lookup_insert_ne h

lemma lookup_insert_self (h : m.lookup k = some v) (a : K) :
    (AList.insert k v m).lookup a = m.lookup a := by
  rw [lookup_insert]
  split
  · next ha => rw [ha, h]
  · rfl

lemma lookup_erase (m : HashMap K V) (k a : K) :
    (AList.erase k m).lookup a = if a = k then none else m.lookup a := by
  split
  · next h => rw [h, AList.lookup_erase]
  · next h => exact AList.lookup_erase_ne h

lemma mem_values {v : V} : v ∈ values m ↔ ∃ k, m.lookup k = some v := by
  simp only [values, List.mem_map]
  constructor
  · rintro ⟨⟨k, w⟩, h, rfl⟩
    exact ⟨k, AList.mem_lookup_iff.mpr h⟩
  · rintro ⟨k, h⟩
    exact ⟨⟨k, v⟩, AList.mem_lookup_iff.mp h, rfl⟩

lemma mem_keys : k ∈ m.keys ↔ ∃ v, m.lookup k = some v := by
  rw [← AList.mem_keys, ← AList.lookup_isSome, Option.isSome_iff_exists]

lemma isEmpty_iff : isEmpty m = true ↔ ∀ k, m.lookup k = none := by
  rw [isEmpty, List.isEmpty_iff]
  constructor
  · intro h k
    refine Option.eq_none_iff_forall_ne_some.mpr fun v hv => ?_
    have := AList.mem_lookup_iff.mp hv
    simp [h] at this
  · intro h
    refine List.eq_nil_iff_forall_not_mem.mpr fun ⟨k, v⟩ hkv => ?_
    have := AList.mem_lookup_iff.mpr hkv
    simp [h k] at this

lemma not_isEmpty_iff : isEmpty m = false ↔ ∃ k v, m.lookup k = some v := by
  rw [← Bool.not_eq_true, isEmpty_iff, not_forall]
  exact exists_congr fun k => Option.ne_none_iff_exists'

/-- `m.retain(p)`. -/
def retain (p : K → V → Bool) (m : HashMap K V) : HashMap K V where
  entries := m.entries.filter fun e => p e.1 e.2
  nodupKeys := m.nodupKeys.sublist List.filter_sublist

lemma lookup_retain (p : K → V → Bool) (m : HashMap K V) (k : K) :
    (retain p m).lookup k = (m.lookup k).filter (p k) := by
  refine Option.ext fun v => ?_
  have hentries (v : V) : m.lookup k = some v ↔ ⟨k, v⟩ ∈ m.entries := AList.mem_lookup_iff
  have hretain : (retain p m).lookup k = some v ↔ ⟨k, v⟩ ∈ (retain p m).entries :=
    AList.mem_lookup_iff
  rw [hretain, retain, List.mem_filter, Option.filter_eq_some_iff, hentries]

/-- `if let Some(v) = m.get_mut(k) { *v = f(v) }`. -/
def modify (k : K) (f : V → V) (m : HashMap K V) : HashMap K V :=
  match m.lookup k with
  | some v => AList.insert k (f v) m
  | none => m

lemma lookup_modify (k : K) (f : V → V) (m : HashMap K V) (a : K) :
    (modify k f m).lookup a = if a = k then (m.lookup k).map f else m.lookup a := by
  unfold modify
  split
  · next v hv => rw [lookup_insert, hv, Option.map_some]
  · next hv =>
    split_ifs with ha
    · rw [ha, hv, Option.map_none]
    · rfl

/-! ### Sums over the values -/

/-- Of a measure of the values. -/
def sum (f : V → ℕ) (m : HashMap K V) : ℕ := ((values m).map f).sum

variable {f : V → ℕ}

lemma sum_insert_of_none (h : m.lookup k = none) : sum f (AList.insert k v m) = f v + sum f m := by
  have hk : k ∉ m.keys := by
    rw [mem_keys, h]
    simp
  rw [sum, sum, values, values, AList.entries_insert_of_notMem (AList.mem_keys.not.mpr hk)]
  rfl

lemma sum_insert_of_some {w : V} (h : m.lookup k = some w) (hf : f v = f w) :
    sum f (AList.insert k v m) = sum f m := by
  have hmem : (⟨k, w⟩ : Σ _ : K, V) ∈ m.entries := AList.mem_lookup_iff.mp h
  obtain ⟨b, l₁, l₂, hl₁, hsplit, herase⟩ :=
    List.exists_of_kerase (List.mem_keys_of_mem hmem)
  have hb : b = w := by
    have hb : m.lookup k = some b := AList.mem_lookup_iff.mpr (hsplit ▸ by simp)
    exact Option.some.inj (hb.symm.trans h)
  have hentries : (AList.insert k v m).entries = ⟨k, v⟩ :: (l₁ ++ l₂) := by
    rw [AList.entries_insert, herase]
  rw [sum, sum, values, values, hentries, hsplit]
  simp only [List.map_cons, List.map_append, List.sum_cons, List.sum_append, hb, hf]
  omega

lemma sum_modify {g : V → V} (hf : ∀ v, f (g v) = f v) : sum f (modify k g m) = sum f m := by
  unfold modify
  split
  · next v hv => exact sum_insert_of_some hv (hf v)
  · rfl

omit [DecidableEq K] in
lemma sum_retain (p : K → V → Bool) (m : HashMap K V) :
    sum f (retain p m) + sum f (retain (fun k v => !p k v) m) = sum f m := by
  simp only [sum, values, retain]
  induction m.entries with
  | nil => rfl
  | cons e l ih =>
    simp only [List.filter_cons, List.map_cons, List.sum_cons] at ih ⊢
    cases p e.1 e.2 with
    | true =>
      simp only [if_true, Bool.not_true, Bool.false_eq_true, if_false, List.map_cons, List.sum_cons]
      omega
    | false =>
      simp only [Bool.false_eq_true, if_false, Bool.not_false, if_true, List.map_cons,
        List.sum_cons]
      omega

end HashMap

end VoiceHub.Lib
