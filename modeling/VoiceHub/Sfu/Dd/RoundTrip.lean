import Mathlib
import VoiceHub.Lib.Bits
import VoiceHub.Lib.Reader
import VoiceHub.Lib.Transducer
import VoiceHub.Sfu.Dd.Parser
import VoiceHub.Sfu.Dd.Format

/-!
The parser reads every well-formed sequence of descriptors.

The bit reader takes bits off what is left of the bytes; each part of the parser then takes
exactly the bits of the part of the descriptor it is for, and returns what they say.
-/

namespace VoiceHub.Sfu.Dd

open VoiceHub.Lib.Bits VoiceHub.Lib.Reader VoiceHub.Lib.Transducer

/-! ## Bits -/

/-- The bits a reader has left. -/
def BitReader.rest (br : BitReader) : List Bool := (bytesBits br.buf).drop br.pos

lemma BitReader.length_rest (br : BitReader) : br.rest.length = br.remaining := by
  rw [rest, List.length_drop, length_bytesBits, remaining]

variable {α : Type} {xs ys : List Bool} {w v n : ℕ} {a : α}

lemma take_chunk {buf : List UInt8} {pos t : ℕ} (ht : pos % 8 + t ≤ 8) (h : pos < 8 * buf.length) :
    ((buf.getD (pos / 8) 0).toNat >>> (8 - pos % 8 - t)) &&& (2 ^ t - 1) =
      ofBits (((bytesBits buf).drop pos).take t) := by
  rw [shift_mask ht, bytesBits_drop h, List.take_append_of_le_length]
  simp
  omega

lemma readLoop_eq (buf : List UInt8) {turns pos n v : ℕ} (ht : n ≤ turns)
    (hn : pos + n ≤ 8 * buf.length) (hv : (v + 1) * 2 ^ n ≤ 2 ^ 32) :
    readLoop buf turns pos n v =
      (v * 2 ^ n + ofBits (((bytesBits buf).drop pos).take n), pos + n) := by
  induction turns generalizing pos n v with
  | zero =>
    obtain rfl : n = 0 := by omega
    simp [readLoop, ofBits]
  | succ turns ih =>
    rw [readLoop]
    rcases Nat.eq_zero_or_pos n with rfl | hpos
    · simp [ofBits]
    · rw [if_neg (by omega)]
      generalize htake : min (8 - pos % 8) n = t
      have hlt : pos % 8 < 8 := Nat.mod_lt _ (by omega)
      have ht₁ : 1 ≤ t := by omega
      have ht₂ : pos % 8 + t ≤ 8 := by omega
      obtain ⟨m, rfl⟩ : ∃ m, n = t + m := ⟨n - t, by omega⟩
      have hchunk := take_chunk ht₂ (show pos < 8 * buf.length by omega)
      have hlen : (((bytesBits buf).drop pos).take t).length = t := by
        rw [List.length_take, List.length_drop, length_bytesBits]
        omega
      have hm : (((bytesBits buf).drop (pos + t)).take m).length = m := by
        rw [List.length_take, List.length_drop, length_bytesBits]
        omega
      have hbits : ((bytesBits buf).drop pos).take (t + m) =
          ((bytesBits buf).drop pos).take t ++ ((bytesBits buf).drop (pos + t)).take m := by
        rw [List.take_add, List.drop_drop]
      generalize hc : ofBits (((bytesBits buf).drop pos).take t) = c at hchunk
      have hc_lt : c < 2 ^ t := by
        have := ofBits_lt (((bytesBits buf).drop pos).take t)
        rwa [hc, hlen] at this
      -- with the chunk at its end the accumulator still has room for the other bits
      have hnext : (v * 2 ^ t + c + 1) * 2 ^ m ≤ 2 ^ 32 := by
        calc (v * 2 ^ t + c + 1) * 2 ^ m
            ≤ ((v + 1) * 2 ^ t) * 2 ^ m := Nat.mul_le_mul_right _ (by rw [Nat.succ_mul]; omega)
          _ = (v + 1) * 2 ^ (t + m) := by rw [pow_add, Nat.mul_assoc]
          _ ≤ 2 ^ 32 := hv
      have hup : v <<< t < 2 ^ 32 := by
        have hle : (v * 2 ^ t + c + 1) * 1 ≤ (v * 2 ^ t + c + 1) * 2 ^ m :=
          Nat.mul_le_mul_left _ Nat.one_le_two_pow
        rw [Nat.shiftLeft_eq]
        omega
      have hacc : (v <<< t) % 2 ^ 32 ||| c = v * 2 ^ t + c := by
        rw [Nat.mod_eq_of_lt hup, ← Nat.shiftLeft_add_eq_or_of_lt hc_lt, Nat.shiftLeft_eq]
      simp only [htake, hchunk, hacc, Nat.add_sub_cancel_left]
      rw [ih (by omega) (by omega) hnext, hbits, ofBits_append, hc, hm, Nat.add_assoc pos t m]
      congr 1
      ring

lemma reads_read (h : xs.length ≤ 32) : Reads BitReader.rest (read xs.length) xs (ofBits xs) := by
  intro br tail hrest
  have hlen := br.length_rest
  rw [hrest, List.length_append] at hlen
  rw [read]
  rcases Nat.eq_zero_or_pos xs.length with h₀ | hpos
  · obtain rfl := List.eq_nil_of_length_eq_zero h₀
    exact ⟨br, rfl, hrest⟩
  · have hfit : br.pos + xs.length ≤ 8 * br.buf.length := by
      rw [BitReader.remaining] at hlen
      omega
    have hroom : (0 + 1) * 2 ^ xs.length ≤ 2 ^ 32 := by
      rw [Nat.zero_add, Nat.one_mul]
      exact Nat.pow_le_pow_right (by omega) h
    rw [if_neg (by omega), if_neg (by omega), readLoop_eq br.buf le_rfl hfit hroom]
    refine ⟨{ br with pos := br.pos + xs.length }, ?_, ?_⟩
    · have htake : ((bytesBits br.buf).drop br.pos).take xs.length = xs := by
        have : (bytesBits br.buf).drop br.pos = xs ++ tail := hrest
        rw [this, List.take_left]
      rw [htake, Nat.zero_mul, Nat.zero_add]
    · rw [BitReader.rest, ← List.drop_drop]
      have : (bytesBits br.buf).drop br.pos = xs ++ tail := hrest
      rw [this, List.drop_left]

lemma reads_toBits_mod (v : ℕ) (hw : w ≤ 32) :
    Reads BitReader.rest (read w) (toBits w v) (v % 2 ^ w) := by
  have h : Reads BitReader.rest (read (toBits w v).length) (toBits w v) (ofBits (toBits w v)) :=
    reads_read (by rwa [length_toBits])
  rwa [length_toBits, ofBits_toBits_mod] at h

lemma reads_toBits (hv : v < 2 ^ w) (hw : w ≤ 32) :
    Reads BitReader.rest (read w) (toBits w v) v := by
  have h := reads_toBits_mod v hw
  rwa [Nat.mod_eq_of_lt hv] at h

lemma reads_bool (b : Bool) : Reads BitReader.rest readBool [b] b := by
  have h : Reads BitReader.rest (read 1) [b] (ofBits [b]) := reads_read (by simp)
  have hb : decide (ofBits [b] ≠ 0) = b := by cases b <;> decide
  have := h.bind_pure (f := fun v => decide (v ≠ 0))
  rwa [hb] at this

lemma reads_remaining {f : ℕ → Read α} (h : ∀ r, xs.length ≤ r → Reads BitReader.rest (f r) xs a) :
    Reads BitReader.rest (remaining >>= f) xs a := by
  intro br tail hrest
  have hlen := br.length_rest
  rw [hrest, List.length_append] at hlen
  exact h br.remaining (by omega) br tail hrest

/-- **The code `ns(n)`** is read back. -/
theorem reads_ns (hv : v < n) (hn : n < 2 ^ 32) : Reads BitReader.rest (ns n) (nsBits n v) v := by
  have hsize : n.size ≤ 32 := Nat.size_le.mpr hn
  rw [ns]
  split
  · next h =>
    obtain ⟨rfl, rfl⟩ : n = 1 ∧ v = 0 := by omega
    exact Reads.pure 0
  · rcases Nat.lt_or_ge v (short n) with hs | hs
    · have hlt : v < 2 ^ (n.size - 1) := lt_of_lt_of_le hs (short_le (by omega))
      have hbits : nsBits n v = toBits (n.size - 1) v ++ [] := by
        rw [nsBits, if_pos hs, List.append_nil]
      rw [hbits]
      refine (reads_toBits hlt (by omega)).bind ?_
      have hk : v < 2 ^ n.size - n := hs
      simp only [if_pos hk]
      exact Reads.pure v
    · obtain ⟨hbits, hk, hlt⟩ := nsBits_long hv hs
      rw [hbits]
      refine (reads_toBits hlt (by omega)).bind ?_
      have hlong : ¬ (v + short n) / 2 < 2 ^ n.size - n := by
        unfold short at hk ⊢
        omega
      have hvalue : ((v + short n) / 2) <<< 1 + (v + short n) % 2 ^ 1 - (2 ^ n.size - n) = v := by
        rw [Nat.shiftLeft_eq]
        unfold short
        omega
      have hextra := reads_toBits_mod (v + short n) (show 1 ≤ 32 by omega)
      have := hextra.bind_pure
        (f := fun extra => ((v + short n) / 2) <<< 1 + extra - (2 ^ n.size - n))
      rw [hvalue] at this
      simpa only [if_neg hlong] using this

/-! ## Structures -/

/-- A template before its frame diffs and its chains are read. -/
def DependencyTemplate.layered (t : DependencyTemplate) : Template where
  temporal := t.temporalId
  fdiffs := []
  chainDiffs := []

/-- A template as the parser keeps it. -/
def DependencyTemplate.parsed (t : DependencyTemplate) : Template where
  temporal := t.temporalId
  fdiffs := t.fdiffs
  chainDiffs := t.chainFdiffs

/-- A structure as the parser keeps it. -/
def DependencyStructure.parsed (s : DependencyStructure) : Structure where
  templateIdOffset := s.templateIdOffset
  numDecodeTargets := s.dtCnt
  numChains := s.chainCnt
  templates := s.templates.map DependencyTemplate.parsed

variable {t t' : DependencyTemplate} {ts : List DependencyTemplate} {s : DependencyStructure}

lemma nextLayer_idc (h : NextLayer t t') :
    nextLayer (nextLayerIdc t t') t.spatialId t.temporalId = (t'.spatialId, t'.temporalId) ∧
      nextLayerIdc t t' < 3 := by
  rcases h with ⟨hs, ht⟩ | ⟨hs, ht⟩ | ⟨hs, ht⟩
  · simp [nextLayerIdc, nextLayer, hs, ht]
  · simp [nextLayerIdc, nextLayer, hs, ht]
  · simp [nextLayerIdc, nextLayer, hs, ht]

lemma length_layerBits (t : DependencyTemplate) (ts : List DependencyTemplate) :
    2 ≤ (layerBits t ts).length := by
  cases ts <;> simp [layerBits]

lemma reads_templates {room : ℕ} (hl : Layered t ts) (hroom : ts.length < room) :
    Reads BitReader.rest (readTemplates room t.spatialId t.temporalId) (layerBits t ts)
      ((t :: ts).map DependencyTemplate.layered, maxSpatialId t ts) := by
  induction ts generalizing t room with
  | nil =>
    obtain ⟨room, rfl⟩ : ∃ r, room = r + 1 := ⟨room - 1, by omega⟩
    have hidc : Reads BitReader.rest (read 2) (toBits 2 3) 3 := reads_toBits (by omega) (by omega)
    have hbits : layerBits t [] = toBits 2 3 ++ [] := (List.append_nil _).symm
    rw [readTemplates, hbits]
    refine hidc.bind (reads_remaining fun left _ => ?_)
    rw [if_pos (.inl rfl)]
    exact Reads.pure _
  | cons t' ts ih =>
    obtain ⟨hnext, hl⟩ := hl
    obtain ⟨hidc, hlt⟩ := nextLayer_idc hnext
    obtain ⟨room, rfl⟩ : ∃ r, room = r + 1 := ⟨room - 1, by omega⟩
    have hread : Reads BitReader.rest (read 2) (toBits 2 (nextLayerIdc t t')) _ :=
      reads_toBits (by omega) (by omega)
    have hothers : Reads BitReader.rest (readTemplates room t'.spatialId t'.temporalId) _ _ :=
      ih hl (by simpa using hroom)
    rw [readTemplates, layerBits]
    refine hread.bind (reads_remaining fun left hleft => ?_)
    have hlen := length_layerBits t' ts
    rw [hidc, if_neg (by omega)]
    exact hothers.bind_pure

lemma reads_fdiffs {fdiffs : List ℕ} {turns : ℕ} (h : ∀ f ∈ fdiffs, 1 ≤ f ∧ f ≤ 16)
    (hturns : fdiffs.length < turns) :
    Reads BitReader.rest (readFdiffs turns) (fdiffBits fdiffs) fdiffs := by
  induction fdiffs generalizing turns with
  | nil =>
    obtain ⟨turns, rfl⟩ : ∃ r, turns = r + 1 := ⟨turns - 1, by omega⟩
    exact (reads_bool false).bind (Reads.pure [])
  | cons f fdiffs ih =>
    obtain ⟨turns, rfl⟩ : ∃ r, turns = r + 1 := ⟨turns - 1, by omega⟩
    obtain ⟨h₁, h₁₆⟩ := h f (List.mem_cons_self ..)
    have hf : Reads BitReader.rest (read 4) (toBits 4 (f - 1)) (f - 1) :=
      reads_toBits (by omega) (by omega)
    have hfdiffs : Reads BitReader.rest (readFdiffs turns) (fdiffBits fdiffs) fdiffs :=
      ih (fun f hf => h f (List.mem_cons_of_mem _ hf)) (by simpa using hturns)
    have hbits : fdiffBits (f :: fdiffs) = [true] ++ (toBits 4 (f - 1) ++ fdiffBits fdiffs) := by
      simp [fdiffBits]
    have hvalue : (f - 1) % 2 ^ 8 + 1 = f := by omega
    rw [hbits, readFdiffs]
    refine (reads_bool true).bind (hf.bind ?_)
    rw [hvalue]
    exact hfdiffs.bind_pure

lemma length_fdiffBits (fdiffs : List ℕ) : fdiffs.length < (fdiffBits fdiffs).length := by
  induction fdiffs with
  | nil => simp [fdiffBits]
  | cons f fdiffs ih =>
    have hbits : fdiffBits (f :: fdiffs) = true :: (toBits 4 (f - 1) ++ fdiffBits fdiffs) := by
      simp [fdiffBits]
    rw [hbits, List.length_cons, List.length_cons, List.length_append]
    omega

lemma reads_templateFdiffs (h : ∀ f ∈ t.fdiffs, 1 ≤ f ∧ f ≤ 16) :
    Reads BitReader.rest (readTemplateFdiffs t.layered) (fdiffBits t.fdiffs)
      { t.layered with fdiffs := t.fdiffs } := by
  refine reads_remaining fun left hleft => ?_
  have hlen := length_fdiffBits t.fdiffs
  exact (reads_fdiffs h (by omega)).bind_pure

lemma reads_chains {width : ℕ} {chains : List ℕ} (hw : width ≤ 8)
    (h : ∀ c ∈ chains, c < 2 ^ width) :
    Reads BitReader.rest (readChains width chains.length) (chains.flatMap (toBits width))
      chains := by
  have hchain : ∀ c ∈ chains, Reads BitReader.rest (read width) (toBits width c) (id c) :=
    fun c hc => reads_toBits (h c hc) (by omega)
  have hdiffs : (chains.map id).map (· % 2 ^ 8) = chains := by
    have hpow : 2 ^ width ≤ 2 ^ 8 := Nat.pow_le_pow_right (by omega) hw
    calc (chains.map id).map (· % 2 ^ 8)
        = chains.map (· % 2 ^ 8) := by rw [List.map_id]
      _ = chains.map id :=
          List.map_congr_left fun c hc => Nat.mod_eq_of_lt (lt_of_lt_of_le (h c hc) hpow)
      _ = chains := List.map_id _
  have := (Reads.times hchain).bind_pure (f := fun diffs : List ℕ => diffs.map (· % 2 ^ 8))
  rwa [hdiffs] at this

lemma reads_allChains (s : DependencyStructure) :
    Reads BitReader.rest
      (readAllChains s.chainCnt s.dtCnt
        (s.templates.map fun t => { t.layered with fdiffs := t.fdiffs }))
      (chainBits s) (s.templates.map DependencyTemplate.parsed) := by
  rw [readAllChains, chainBits]
  rcases Nat.eq_zero_or_pos s.chainCnt with h₀ | hpos
  · rw [if_neg (by omega), if_pos h₀]
    have hparsed : s.templates.map (fun t => { t.layered with fdiffs := t.fdiffs }) =
        s.templates.map DependencyTemplate.parsed := by
      refine List.map_congr_left fun t ht => ?_
      have hchains : t.chainFdiffs = [] :=
        List.eq_nil_of_length_eq_zero ((s.templates_fit t ht).chainFdiffs.trans h₀)
      simp [DependencyTemplate.layered, DependencyTemplate.parsed, hchains]
    rw [hparsed]
    exact Reads.pure _
  · rw [if_pos hpos, if_neg (by omega)]
    have hlt : s.chainCnt < 2 ^ 32 := by
      have h₁ := s.chainCnt_le
      have h₂ := s.dtCnt_le
      omega
    have hprotected : Reads BitReader.rest (times (ns s.chainCnt) s.protectedBy.length)
        (s.protectedBy.flatMap (nsBits s.chainCnt)) (s.protectedBy.map id) :=
      Reads.times fun c hc => reads_ns (s.protectedBy_lt c hc) hlt
    rw [s.protectedBy_length hpos] at hprotected
    refine hprotected.bind (Reads.mapM fun t ht => ?_)
    have hfit := s.templates_fit t ht
    have hchains := reads_chains (by omega : 4 ≤ 8) hfit.chainFdiff
    rw [hfit.chainFdiffs] at hchains
    exact hchains.bind_pure

lemma length_flatMap_of {α β : Type} {f : α → List β} {as : List α} {n : ℕ}
    (h : ∀ a ∈ as, (f a).length = n) : (as.flatMap f).length = as.length * n := by
  induction as with
  | nil => simp
  | cons a as ih =>
    have ha := h a (List.mem_cons_self ..)
    have has := ih fun a ha => h a (List.mem_cons_of_mem _ ha)
    rw [List.flatMap_cons, List.length_append, ha, has, List.length_cons, Nat.succ_mul]
    omega

lemma reads_dtis (s : DependencyStructure) : ∃ dtis,
    Reads BitReader.rest
      (times (read 2) ((s.templates.map DependencyTemplate.layered).length * s.dtCnt))
      (s.templates.flatMap fun t => dtiBits t.dtis) dtis := by
  have hdti : ∀ d ∈ s.templates.flatMap (·.dtis),
      Reads BitReader.rest (read 2) (toBits 2 d) (id d) := by
    intro d hd
    obtain ⟨t, ht, hd⟩ := List.mem_flatMap.mp hd
    exact reads_toBits ((s.templates_fit t ht).dti d hd) (by omega)
  have hlen : (s.templates.flatMap (·.dtis)).length = s.templates.length * s.dtCnt :=
    length_flatMap_of fun t ht => (s.templates_fit t ht).dtis
  have h := Reads.times hdti
  rw [hlen, List.flatMap_assoc] at h
  rw [List.length_map]
  exact ⟨_, h⟩

lemma reads_resolutions (s : DependencyStructure) {β : Type} (b : β) :
    Reads BitReader.rest
      (do
        let resolutions ← readBool
        let _ ← optionally resolutions
          (times (do let _ ← read 16; read 16) (maxSpatialId s.first s.others + 1)) []
        pure b)
      (resolutionBits s.resolutions) b := by
  have hbits : resolutionBits s.resolutions = [s.resolutions.isSome] ++
      s.resolutions.elim [] fun rs => rs.flatMap fun r => toBits 16 r.1 ++ toBits 16 r.2 := by
    cases h : s.resolutions <;> simp [resolutionBits]
  have hall : ∀ rs ∈ s.resolutions, Reads BitReader.rest
      (times (do let _ ← read 16; read 16) (maxSpatialId s.first s.others + 1))
      (rs.flatMap fun r => toBits 16 r.1 ++ toBits 16 r.2) (rs.map fun r => r.2) := by
    intro rs hrs
    rw [← s.resolutions_length rs hrs]
    refine Reads.times fun r hr => ?_
    obtain ⟨h₁, h₂⟩ := s.resolutions_lt rs hrs r hr
    exact (reads_toBits h₁ (by omega)).bind (reads_toBits h₂ (by omega))
  rw [hbits]
  exact (reads_bool _).bind ((Reads.optionally hall []).bind_pure (f := fun _ => b))

/-- **Structures** are read back. -/
theorem reads_structure (s : DependencyStructure) :
    Reads BitReader.rest parseStructure s.bits s.parsed := by
  have hoffset : Reads BitReader.rest (read 6) (toBits 6 s.templateIdOffset) s.templateIdOffset :=
    reads_toBits s.offset_lt (by omega)
  have hpos := s.dtCnt_pos
  have hle := s.dtCnt_le
  have hdtCnt : Reads BitReader.rest (read 5) (toBits 5 (s.dtCnt - 1)) (s.dtCnt - 1) :=
    reads_toBits (by omega) (by omega)
  have hsucc : s.dtCnt - 1 + 1 = s.dtCnt := by omega
  obtain ⟨hspatial, htemporal⟩ := s.baseLayer
  have hlayers := reads_templates s.layered (show _ < MAX_TEMPLATES from s.templates_le)
  rw [hspatial, htemporal] at hlayers
  obtain ⟨dtis, hdtis⟩ := reads_dtis s
  have hfdiffs : Reads BitReader.rest
      ((s.templates.map DependencyTemplate.layered).mapM readTemplateFdiffs)
      (s.templates.flatMap fun t => fdiffBits t.fdiffs)
      (s.templates.map fun t => { t.layered with fdiffs := t.fdiffs }) :=
    Reads.mapM fun t ht => reads_templateFdiffs (s.templates_fit t ht).fdiff
  have hchainCnt : Reads BitReader.rest (ns (s.dtCnt + 1)) (nsBits (s.dtCnt + 1) s.chainCnt) _ :=
    reads_ns (Nat.lt_succ_of_le s.chainCnt_le) (by omega)
  unfold parseStructure DependencyStructure.bits
  refine hoffset.bind (hdtCnt.bind ?_)
  simp only [hsucc]
  exact hlayers.bind (hdtis.bind (hfdiffs.bind (hchainCnt.bind
    ((reads_allChains s).bind (reads_resolutions s _)))))

/-! ## Packets -/

/-- What the parser takes the extended fields for. -/
def ExtendedFields.parsed (e : ExtendedFields) : Extended where
  activeDtPresent := e.activeDecodeTargets.isSome
  customDtis := e.customDtis.isSome
  customFdiffs := e.customFdiffs.isSome
  customChains := e.customChains.isSome
  attached := e.attached.map DependencyStructure.parsed

/-- The same of a packet, which may have none. -/
def Packet.parsed (p : Packet) : Extended := p.extended.elim .absent ExtendedFields.parsed

variable {p : Packet} {e : ExtendedFields}

/-- The bits up to the attached structure, and those after it. -/
def Packet.headerBits (p : Packet) : List Bool :=
  p.mandatoryBits ++ p.extended.elim [] fun e =>
    e.flagBits ++ e.attached.elim [] DependencyStructure.bits

lemma bits_eq (p : Packet) (s : DependencyStructure) :
    p.bits s = p.headerBits ++ p.extended.elim [] fun e => e.frameBits s := by
  cases h : p.extended <;> simp [Packet.bits, Packet.headerBits, h]

lemma reads_attached (attached : Option DependencyStructure) :
    Reads BitReader.rest (optionally attached.isSome (some <$> parseStructure) none)
      (attached.elim [] DependencyStructure.bits) (attached.map DependencyStructure.parsed) := by
  have h : Reads BitReader.rest _ _ (attached.elim none fun s => some s.parsed) :=
    Reads.optionally (fun s _ => (reads_structure s).map) none
  cases attached <;> exact h

lemma reads_extended (e : ExtendedFields) :
    Reads BitReader.rest readExtended
      (e.flagBits ++ e.attached.elim [] DependencyStructure.bits) e.parsed := by
  have hbits : e.flagBits ++ e.attached.elim [] DependencyStructure.bits =
      [e.attached.isSome] ++ ([e.activeDecodeTargets.isSome] ++ ([e.customDtis.isSome] ++
        ([e.customFdiffs.isSome] ++ ([e.customChains.isSome] ++
          e.attached.elim [] DependencyStructure.bits)))) := by
    simp [ExtendedFields.flagBits]
  rw [hbits]
  exact (reads_bool _).bind ((reads_bool _).bind ((reads_bool _).bind ((reads_bool _).bind
    ((reads_bool _).bind (reads_attached e.attached).bind_pure))))

lemma reads_header {len : ℕ} (hp : p.Fits s) (hlen : 3 < len ↔ p.extended.isSome) :
    Reads BitReader.rest (readHeader len) p.headerBits
      (p.templateId, p.frameNumber, p.parsed) := by
  have hflags : Reads BitReader.rest (read 2) [p.startOfFrame, p.endOfFrame] _ :=
    reads_read (by simp)
  have hid : Reads BitReader.rest (read 6) (toBits 6 p.templateId) p.templateId :=
    reads_toBits hp.templateId_lt (by omega)
  have hnumber : Reads BitReader.rest (read 16) (toBits 16 p.frameNumber) p.frameNumber :=
    reads_toBits hp.frameNumber_lt (by omega)
  have hpresent : decide (3 < len) = p.extended.isSome := by
    rw [Bool.eq_iff_iff, decide_eq_true_eq, hlen]
  have hextended : Reads BitReader.rest (optionally (3 < len) readExtended .absent)
      (p.extended.elim [] fun e => e.flagBits ++ e.attached.elim [] DependencyStructure.bits)
      p.parsed := by
    rw [hpresent]
    exact Reads.optionally (fun e _ => reads_extended e) _
  have hmod : p.frameNumber % 2 ^ 16 = p.frameNumber := Nat.mod_eq_of_lt hp.frameNumber_lt
  rw [Packet.headerBits, Packet.mandatoryBits, List.append_assoc, List.append_assoc]
  refine hflags.bind (hid.bind (hnumber.bind ?_))
  rw [hmod]
  exact hextended.bind_pure

lemma reads_customFdiffs {fdiffs : List (ℕ × ℕ)} {turns : ℕ}
    (h : ∀ f ∈ fdiffs, (1 ≤ f.1 ∧ f.1 ≤ 3) ∧ f.2 < 2 ^ (4 * f.1)) (hturns : fdiffs.length < turns) :
    Reads BitReader.rest (readCustomFdiffs turns) (frameFdiffBits fdiffs) fdiffs.length := by
  induction fdiffs generalizing turns with
  | nil =>
    obtain ⟨turns, rfl⟩ : ∃ r, turns = r + 1 := ⟨turns - 1, by omega⟩
    have hend : Reads BitReader.rest (read 2) (toBits 2 0) 0 := reads_toBits (by omega) (by omega)
    have hbits : frameFdiffBits [] = toBits 2 0 ++ [] := by simp [frameFdiffBits]
    rw [hbits, readCustomFdiffs]
    exact hend.bind (Reads.pure 0)
  | cons f fdiffs ih =>
    obtain ⟨turns, rfl⟩ : ∃ r, turns = r + 1 := ⟨turns - 1, by omega⟩
    obtain ⟨⟨h₁, h₃⟩, hf⟩ := h f (List.mem_cons_self ..)
    have hsize : Reads BitReader.rest (read 2) (toBits 2 f.1) f.1 :=
      reads_toBits (by omega) (by omega)
    have hvalue : Reads BitReader.rest (read (f.1 * 4)) (toBits (4 * f.1) f.2) f.2 := by
      rw [Nat.mul_comm]
      exact reads_toBits hf (by omega)
    have hfdiffs : Reads BitReader.rest (readCustomFdiffs turns) (frameFdiffBits fdiffs)
        fdiffs.length :=
      ih (fun f hf => h f (List.mem_cons_of_mem _ hf)) (by simpa using hturns)
    have hbits : frameFdiffBits (f :: fdiffs) =
        toBits 2 f.1 ++ (toBits (4 * f.1) f.2 ++ frameFdiffBits fdiffs) := by
      simp [frameFdiffBits]
    rw [hbits, readCustomFdiffs]
    refine hsize.bind ?_
    rw [if_neg (by omega)]
    exact hvalue.bind hfdiffs.bind_pure

lemma length_frameFdiffBits (fdiffs : List (ℕ × ℕ)) :
    fdiffs.length < (frameFdiffBits fdiffs).length := by
  induction fdiffs with
  | nil => simp [frameFdiffBits]
  | cons f fdiffs ih =>
    have hbits : frameFdiffBits (f :: fdiffs) =
        toBits 2 f.1 ++ (toBits (4 * f.1) f.2 ++ frameFdiffBits fdiffs) := by
      simp [frameFdiffBits]
    rw [hbits, List.length_append, List.length_append, length_toBits, List.length_cons]
    omega

lemma reads_countFdiffs {fdiffs : List (ℕ × ℕ)}
    (h : ∀ f ∈ fdiffs, (1 ≤ f.1 ∧ f.1 ≤ 3) ∧ f.2 < 2 ^ (4 * f.1)) :
    Reads BitReader.rest countFdiffs (frameFdiffBits fdiffs) fdiffs.length := by
  refine reads_remaining fun left hleft => ?_
  have hlen := length_frameFdiffBits fdiffs
  exact reads_customFdiffs h (by omega)

lemma reads_customDtis {dtis : List ℕ} (h : dtis.length = n ∧ ∀ d ∈ dtis, d < 4) :
    Reads BitReader.rest (times (read 2) n) (dtiBits dtis) dtis := by
  obtain ⟨rfl, hlt⟩ := h
  have hdtis : Reads BitReader.rest (times (read 2) dtis.length) (dtiBits dtis) (dtis.map id) :=
    Reads.times fun d hd => reads_toBits (hlt d hd) (by omega)
  rwa [List.map_id] at hdtis

/-- A packet with extended fields: what it does not define by itself is its template's. -/
lemma reads_frame (he : e.Fits s) {templateId : ℕ} (ht : s.template templateId = some t)
    (frameNumber : ℕ) :
    Reads BitReader.rest (readFrame s.parsed templateId frameNumber e.parsed) (e.frameBits s)
      { frameNumber
        temporalLayer := t.temporalId
        isKeyframe := e.customFdiffs.elim t.fdiffs.length (·.length) = 0
        attachesStructure := e.attached.isSome
        chainDiffs := e.customChains.elim t.chainFdiffs id } := by
  have hmask : ∀ mask ∈ e.activeDecodeTargets,
      Reads BitReader.rest (read s.dtCnt) (toBits s.dtCnt mask) mask :=
    fun mask hmask => reads_toBits (he.activeDecodeTargets mask hmask) s.dtCnt_le
  have hchains : ∀ chains ∈ e.customChains, Reads BitReader.rest (readChains 8 s.chainCnt)
      (chains.flatMap (toBits 8)) (id chains) := by
    intro chains hc
    obtain ⟨hlen, hlt⟩ := he.chains chains hc
    rw [← hlen]
    exact reads_chains le_rfl hlt
  have htmpl : s.parsed.templates[(templateId + MAX_TEMPLATES - s.parsed.templateIdOffset) %
      MAX_TEMPLATES]? = some t.parsed := by
    have hmap : s.parsed.templates = s.templates.map DependencyTemplate.parsed := rfl
    have hid : s.templates[(templateId + MAX_TEMPLATES - s.parsed.templateIdOffset) %
        MAX_TEMPLATES]? = some t := ht
    rw [hmap, List.getElem?_map, hid]
    rfl
  have hattached : e.attached.isSome = e.parsed.attached.isSome := by
    simp [ExtendedFields.parsed]
  rw [readFrame, ExtendedFields.frameBits, hattached]
  refine (Reads.optionally hmask 0).bind ?_
  simp only [htmpl]
  exact (Reads.optionally (fun dtis h => reads_customDtis (he.dtis dtis h)) []).bind
    ((Reads.optionally (fun fdiffs h => reads_countFdiffs (he.fdiffs fdiffs h)) _).bind
      (Reads.optionally hchains _).bind_pure)

lemma reads_packet (hp : p.Fits s) (ht : s.template p.templateId = some t) :
    Reads BitReader.rest (readFrame s.parsed p.templateId p.frameNumber p.parsed)
      (p.extended.elim [] fun e => e.frameBits s) (p.describe t) := by
  rcases h : p.extended with _ | e
  · -- a short packet says what extended fields that leave everything out would say
    have he : ExtendedFields.Fits ⟨none, none, none, none, none⟩ s :=
      ⟨by simp, by simp, by simp, by simp⟩
    have hframe := reads_frame he ht p.frameNumber
    simpa [Packet.parsed, Packet.describe, Packet.fdiffs, Packet.attached, Packet.chainDiffs, h,
      ExtendedFields.frameBits, ExtendedFields.parsed, Extended.absent] using hframe
  · have hframe := reads_frame (hp.extended e h) ht p.frameNumber
    have hdescribe : p.describe t =
        { frameNumber := p.frameNumber
          temporalLayer := t.temporalId
          isKeyframe := e.customFdiffs.elim t.fdiffs.length (·.length) = 0
          attachesStructure := e.attached.isSome
          chainDiffs := e.customChains.elim t.chainFdiffs id } := by
      cases hf : e.customFdiffs <;> cases hc : e.customChains <;>
        simp [Packet.describe, Packet.fdiffs, Packet.attached, Packet.chainDiffs, h, hf, hc]
    rw [hdescribe, Packet.parsed, h]
    exact hframe

/-! ## Sequences -/

/-- The parser with the structure attached last. -/
def parserOf (active : Option DependencyStructure) : Parser :=
  ⟨active.map DependencyStructure.parsed⟩

/-- **One packet.** The parser says what the packet says, and keeps its structure. -/
theorem parse_packet {active : Option DependencyStructure} {ext : List UInt8}
    (hs : p.attached.or active = some s) (ht : s.template p.templateId = some t) (hp : p.Fits s)
    (hext : Encodes s p ext) :
    (parserOf active).parse ext = (parserOf (some s), .ok (some (p.describe t))) := by
  obtain ⟨⟨padding, hbits⟩, hlen⟩ := hext
  have hne : ext.isEmpty = false := by
    rw [List.isEmpty_eq_false_iff]
    rintro rfl
    have := congrArg List.length hbits
    simp [bytesBits, Packet.bits, Packet.mandatoryBits] at this
  rw [bits_eq, List.append_assoc] at hbits
  have hstart : BitReader.rest ⟨ext, 0⟩ = _ := hbits
  obtain ⟨br, hheader, hrest⟩ := reads_header hp hlen ⟨ext, 0⟩ _ hstart
  obtain ⟨br', hframe, -⟩ := reads_packet hp ht br _ hrest
  have hattached : p.parsed.attached = p.attached.map DependencyStructure.parsed := by
    rcases h : p.extended with _ | e <;>
      simp [Packet.parsed, Packet.attached, Extended.absent, ExtendedFields.parsed, h]
  have hparser : (if p.parsed.attached.isSome then ⟨p.parsed.attached⟩ else parserOf active) =
      parserOf (some s) := by
    rw [hattached]
    rcases h : p.attached with _ | s'
    · rw [h, Option.none_or] at hs
      simp [hs]
    · rw [h, Option.some_or] at hs
      obtain rfl := Option.some.inj hs
      simp [parserOf]
  simp only [Parser.parse, hne, hheader, hparser]
  simp only [parserOf, Option.map_some, hframe]
  rfl

/-- **The parser implements the format.** On every well-formed sequence of descriptors it
returns, packet by packet, what each says under the structure attached last. -/
theorem parses_stream {stream : List (Packet × List UInt8)} (h : Stream none stream) :
    outputs Parser.parse .default (stream.map Prod.snd) =
      (descriptors none (stream.map Prod.fst)).map fun d => .ok (some d) := by
  suffices hall : ∀ active, Stream active stream →
      outputs Parser.parse (parserOf active) (stream.map Prod.snd) =
        (descriptors active (stream.map Prod.fst)).map fun d => .ok (some d) from hall none h
  clear h
  induction stream with
  | nil => exact fun _ _ => rfl
  | cons pe stream ih =>
    obtain ⟨p, ext⟩ := pe
    rintro active ⟨s, t, hs, ht, hp, hext, hstream⟩
    have hparse := parse_packet hs ht hp hext
    simp only [List.map_cons, outputs, hparse, descriptors, hs, Option.bind_some, ht,
      Option.map_some, Option.toList_some, List.singleton_append]
    rw [ih _ hstream]

/-- Two temporal layers, two decode targets, one chain. -/
def twoLayers : DependencyStructure where
  templateIdOffset := 5
  dtCnt := 2
  first := ⟨0, 0, [2, 3], [], [0]⟩
  others := [⟨0, 1, [0, 1], [1, 16], [1]⟩]
  chainCnt := 1
  protectedBy := [0, 0]
  resolutions := some [(639, 359)]
  offset_lt := by decide
  dtCnt_pos := by decide
  dtCnt_le := by decide
  templates_le := by decide
  baseLayer := by decide
  layered := ⟨.inr (.inl (by decide)), trivial⟩
  templates_fit := by
    intro t ht
    rcases List.mem_pair.mp ht with rfl | rfl
    · exact ⟨rfl, by decide, by decide, rfl, by decide⟩
    · exact ⟨rfl, by decide, by decide, rfl, by decide⟩
  chainCnt_le := by decide
  protectedBy_length := by decide
  protectedBy_lt := by decide
  resolutions_length := by decide
  resolutions_lt := by decide

/-- A key frame with the structure, a short packet of the second layer, and a packet with its
own frame diffs and chains. -/
def twoLayersStream : List (Packet × List UInt8) :=
  [(⟨true, true, 5, 7, some ⟨some twoLayers, some 3, none, none, none⟩⟩,
    [197, 0, 7, 192, 161, 123, 20, 62, 128, 96, 79, 224, 44, 248]),
   (⟨true, false, 6, 8, none⟩, [134, 0, 8]),
   (⟨false, true, 5, 9, some ⟨none, none, some [1, 0], some [(2, 40)], some [200]⟩⟩,
    [69, 0, 9, 58, 69, 6, 64])]

lemma twoLayersStream_wellFormed : Stream none twoLayersStream := by
  refine ⟨twoLayers, _, rfl, rfl, ⟨by decide, by decide, ?_⟩, ⟨⟨3, by decide +kernel⟩, by decide⟩,
    twoLayers, _, rfl, rfl, ⟨by decide, by decide, ?_⟩, ⟨⟨0, by decide +kernel⟩, by decide⟩,
    twoLayers, _, rfl, rfl, ⟨by decide, by decide, ?_⟩, ⟨⟨3, by decide +kernel⟩, by decide⟩,
    trivial⟩
  · rintro e ⟨⟩
    exact ⟨by decide, by decide, by decide, by decide⟩
  · rintro e ⟨⟩
  · rintro e ⟨⟩
    exact ⟨by decide, by decide, by decide, by decide⟩

theorem parses_stream_twoLayers :
    outputs Parser.parse .default (twoLayersStream.map Prod.snd) =
        (descriptors none (twoLayersStream.map Prod.fst)).map (fun d => .ok (some d)) ∧
      descriptors none (twoLayersStream.map Prod.fst) =
        [⟨7, 0, true, true, [0]⟩, ⟨8, 1, false, false, [1]⟩, ⟨9, 0, false, false, [200]⟩] :=
  ⟨parses_stream twoLayersStream_wellFormed, by decide +kernel⟩

end VoiceHub.Sfu.Dd
