import Mathlib

/-!
A queue in a ring of cells.

The cells in use follow one another from `readPos` on and go on at the first cell after the
last. A ring that holds some values holds more of them after a push that fits, and a pop gives
the first ones.
-/

namespace VoiceHub.Lib

/-- `dst.set(src, off)`, where it fits. -/
def overwrite {α : Type*} (dst src : List α) (off : ℕ) : List α :=
  dst.take off ++ src ++ dst.drop (off + src.length)

structure RingBuffer (α : Type*) where
  cells : List α
  readPos : ℕ
  pending : ℕ

namespace RingBuffer

variable {α : Type*} {dst src xs : List α} {off i n cap : ℕ} {r : RingBuffer α}

lemma length_overwrite (h : off + src.length ≤ dst.length) :
    (overwrite dst src off).length = dst.length := by
  simp only [overwrite, List.length_append, List.length_take, List.length_drop]
  omega

lemma getElem?_overwrite (h : off + src.length ≤ dst.length) (i : ℕ) :
    (overwrite dst src off)[i]? =
      if i < off then dst[i]? else if i < off + src.length then src[i - off]? else dst[i]? := by
  have hoff : (dst.take off).length = off := by
    rw [List.length_take]
    omega
  rw [overwrite, List.append_assoc]
  split_ifs with hbefore hin
  · rw [List.getElem?_append_left (by omega), List.getElem?_take_of_lt hbefore]
  · rw [List.getElem?_append_right (by omega), hoff, List.getElem?_append_left (by omega)]
  · rw [List.getElem?_append_right (by omega), hoff, List.getElem?_append_right (by omega),
      List.getElem?_drop]
    congr 1
    omega

/-- Behind what is pending, and from the first cell on where the last one is reached. -/
def push (r : RingBuffer α) (src : List α) : RingBuffer α :=
  let cap := r.cells.length
  let writePos := (r.readPos + r.pending) % cap
  let head := min src.length (cap - writePos)
  { r with
    cells := overwrite (overwrite r.cells (src.take head) writePos) (src.drop head) 0
    pending := r.pending + src.length }

/-- The next `n` values, which must be there. -/
def pop (r : RingBuffer α) (n : ℕ) : List α × RingBuffer α :=
  let cap := r.cells.length
  let head := min n (cap - r.readPos)
  ((r.cells.drop r.readPos).take head ++ r.cells.take (n - head),
    { r with readPos := (r.readPos + n) % cap, pending := r.pending - n })

/-- The ring holds these values, the next one to be popped first. -/
structure Holds (r : RingBuffer α) (cap : ℕ) (xs : List α) : Prop where
  length : r.cells.length = cap
  pending : r.pending = xs.length
  readPos_lt : r.readPos < cap
  fits : xs.length ≤ cap
  get : ∀ i < xs.length, r.cells[(r.readPos + i) % cap]? = xs[i]?

lemma wrap (h : i < 2 * cap) : i % cap = if i < cap then i else i - cap := by
  split_ifs with hlt
  · exact Nat.mod_eq_of_lt hlt
  · rw [Nat.mod_eq_sub_mod (by omega), Nat.mod_eq_of_lt (by omega)]

/-- **A push that fits.** -/
theorem Holds.push (h : r.Holds cap xs) (hfits : xs.length + src.length ≤ cap) :
    (r.push src).Holds cap (xs ++ src) := by
  obtain ⟨hlength, hpending, hread, -, hget⟩ := h
  generalize hw : (r.readPos + xs.length) % cap = w
  have hlt : w < cap := hw ▸ Nat.mod_lt _ (by omega)
  have hplace : r.readPos + xs.length = w ∨ r.readPos + xs.length = w + cap := by
    rw [wrap (by omega)] at hw
    split_ifs at hw
    · exact .inl hw
    · exact .inr (by omega)
  generalize hhead : min src.length (cap - w) = head
  have htake : (src.take head).length = head := by
    rw [List.length_take]
    omega
  have hdrop : (src.drop head).length = src.length - head := List.length_drop
  have hinner : w + (src.take head).length ≤ r.cells.length := by omega
  have houter : 0 + (src.drop head).length ≤ (overwrite r.cells (src.take head) w).length := by
    rw [length_overwrite hinner]
    omega
  have hpush : r.push src =
      { r with
        cells := overwrite (overwrite r.cells (src.take head) w) (src.drop head) 0
        pending := r.pending + src.length } := by
    rw [RingBuffer.push, hlength, hpending, hw, hhead]
  have hcell (j : ℕ) : (r.push src).cells[j]? =
      if j < src.length - head then src[head + j]?
      else if j < w then r.cells[j]? else if j < w + head then src[j - w]? else r.cells[j]? := by
    rw [hpush]
    dsimp only
    rw [getElem?_overwrite houter, getElem?_overwrite hinner, hdrop, htake,
      if_neg (Nat.not_lt_zero j), Nat.zero_add, Nat.sub_zero, List.getElem?_drop]
    refine if_congr Iff.rfl rfl ?_
    split_ifs
    · rfl
    · exact List.getElem?_take_of_lt (by omega)
    · rfl
  refine ⟨?_, ?_, ?_, ?_, fun i hi => ?_⟩
  · rw [hpush]
    dsimp only
    rw [length_overwrite houter, length_overwrite hinner, hlength]
  · rw [hpush, List.length_append]
    dsimp only
    rw [hpending]
  · rw [hpush]
    exact hread
  · rwa [List.length_append]
  · have hpos : (r.push src).readPos = r.readPos := by rw [hpush]
    rw [List.length_append] at hi
    rw [hpos, hcell]
    by_cases hold : i < xs.length
    -- what was there is not written over
    · rw [List.getElem?_append_left hold, ← hget i hold, wrap (by omega)]
      split_ifs <;> first | rfl | omega
    · -- what is new lies behind it
      rw [List.getElem?_append_right (by omega), wrap (by omega)]
      split_ifs <;> first | omega | (congr 1; omega)

/-- **A pop of what is there.** -/
theorem Holds.pop (h : r.Holds cap xs) (hn : n ≤ xs.length) :
    (r.pop n).1 = xs.take n ∧ (r.pop n).2.Holds cap (xs.drop n) := by
  obtain ⟨hlength, hpending, hread, hfits, hget⟩ := h
  constructor
  · refine List.ext_getElem? fun i => ?_
    rw [RingBuffer.pop, hlength]
    dsimp only
    generalize hhead : min n (cap - r.readPos) = head
    have hlen : ((r.cells.drop r.readPos).take head).length = head := by
      rw [List.length_take, List.length_drop]
      omega
    by_cases hi : i < n
    · -- what is taken comes from the end of the cells, and then from their beginning
      rw [List.getElem?_take_of_lt hi, ← hget i (by omega), wrap (by omega)]
      by_cases hfirst : i < head
      · rw [List.getElem?_append_left (by omega), List.getElem?_take_of_lt hfirst,
          List.getElem?_drop, if_pos (by omega)]
      · rw [List.getElem?_append_right (by omega), hlen, List.getElem?_take_of_lt (by omega),
          if_neg (by omega)]
        congr 1
        omega
    · -- nothing else is taken
      rw [List.getElem?_eq_none (by rw [List.length_append, hlen, List.length_take]; omega),
        List.getElem?_eq_none (by rw [List.length_take]; omega)]
  · refine ⟨hlength, ?_, ?_, ?_, fun i hi => ?_⟩
    · rw [RingBuffer.pop, List.length_drop]
      dsimp only
      rw [hpending]
    · rw [RingBuffer.pop, hlength]
      exact Nat.mod_lt _ (by omega)
    · rw [List.length_drop]
      omega
    · rw [List.length_drop] at hi
      rw [RingBuffer.pop, hlength, List.getElem?_drop, ← hget (n + i) (by omega)]
      dsimp only
      rw [Nat.mod_add_mod, Nat.add_assoc]

end RingBuffer

end VoiceHub.Lib
