import VoiceHub.Lib.Checked
import VoiceHub.Lib.Transducer
import VoiceHub.Sfu.Dd.RoundTrip

/-!
The parser with the arithmetic of the machine, which may overflow, and indices that may be out
of range.

On every sequence of byte strings it agrees with the parser on natural numbers, so it neither
panics nor loops. What is read bounds every count: a structure that is kept has at most 32
decode targets and chains, whatever packet it came from.
-/

namespace VoiceHub.Sfu.Dd.Checked

open VoiceHub.Lib.Checked
open VoiceHub.Lib.Reader (times optionally)

/-! ## The bit reader -/

def remaining (br : BitReader) : Except (Stop Error) ℕ := do
  let bits ← mul 64 br.buf.length 8
  sub bits br.pos

/-- The loop of `read`, with `turns` left. -/
def readLoop (buf : List UInt8) (turns pos n v : ℕ) : Except (Stop Error) (ℕ × ℕ) :=
  if n = 0 then .ok (v, pos)
  else
    match turns with
    | 0 => .error .spins
    | turns + 1 => do
      let left ← sub 8 (pos % 8)
      let take := min left n
      let byte ← index buf (pos / 8)
      let low ← sub left take
      let high ← shr 8 byte.toNat low
      let one ← shl 16 1 take
      let mask ← sub one 1
      let v ← shl 32 v take
      let pos ← add 64 pos take
      let n ← sub n take
      readLoop buf turns pos n (v ||| (high &&& mask % 2 ^ 8))

abbrev Read := StateT BitReader (Except (Stop Error))

def read (n : ℕ) : Read ℕ := fun br =>
  if n = 0 then .ok (0, br)
  else do
    let left ← remaining br
    if left < n then .error (.err .Eof)
    else do
      let (v, pos) ← readLoop br.buf n br.pos n 0
      .ok (v, { br with pos })

/-- `remaining()` in the middle of a reader. -/
def left : Read ℕ := fun br => do
  let n ← remaining br
  .ok (n, br)

def readBool : Read Bool := do
  let v ← read 1
  pure (v ≠ 0)

/-- `n.leading_zeros()`, of 32 bits. -/
def leadingZeros (n : ℕ) : ℕ := 32 - n.size

def ns (n : ℕ) : Read ℕ :=
  if n ≤ 1 then pure 0
  else do
    let width ← op (sub 32 (leadingZeros n))
    let top ← op (shl 32 1 width)
    let k ← op (sub top n)
    let bits ← op (sub width 1)
    let v ← read bits
    if v < k then pure v
    else do
      let extra ← read 1
      let twice ← op (shl 32 v 1)
      let sum ← op (add 32 twice extra)
      op (sub sum k)

/-! ## The structure -/

def nextLayer (idc spatial temporal : ℕ) : Except (Stop Error) (ℕ × ℕ) :=
  match idc with
  | 1 => do
    let temporal ← add 8 temporal 1
    pure (spatial, temporal)
  | 2 => do
    let spatial ← add 8 spatial 1
    pure (spatial, 0)
  | _ => pure (spatial, temporal)

def readTemplates : (room spatial temporal : ℕ) → Read (List Template × ℕ)
  | 0, _, _ => throw (.err .TooManyTemplates)
  | room + 1, spatial, temporal => do
    let template : Template := { temporal, fdiffs := [], chainDiffs := [] }
    let idc ← read 2
    let next ← op (nextLayer idc spatial temporal)
    let left ← left
    if idc = 3 ∨ left = 0 then pure ([template], next.1)
    else do
      let others ← readTemplates room next.1 next.2
      pure (template :: others.1, others.2)

def readFdiffs : (turns : ℕ) → Read (List ℕ)
  | 0 => throw .spins
  | turns + 1 => do
    let follows ← readBool
    if follows then do
      let v ← read 4
      let fdiff ← op (add 8 (v % 2 ^ 8) 1)
      let fdiffs ← readFdiffs turns
      pure (fdiff :: fdiffs)
    else pure []

/-- Every turn of the loop takes a bit: there are turns for all that are left. -/
def readTemplateFdiffs (t : Template) : Read Template := do
  let left ← left
  let fdiffs ← readFdiffs (left + 1)
  pure { t with fdiffs }

def readChains (width numChains : ℕ) : Read (List ℕ) := do
  let diffs ← times (read width) numChains
  pure (diffs.map (· % 2 ^ 8))

def readTemplateChains (numChains : ℕ) (t : Template) : Read Template := do
  let chainDiffs ← readChains 4 numChains
  pure { t with chainDiffs }

def readAllChains (numChains numDecodeTargets : ℕ) (templates : List Template) :
    Read (List Template) :=
  if 0 < numChains then do
    let _ ← times (ns numChains) numDecodeTargets
    templates.mapM (readTemplateChains numChains)
  else pure templates

def parseStructure : Read Structure := do
  let templateIdOffset ← read 6
  let dtCntMinusOne ← read 5
  let numDecodeTargets ← op (add 64 dtCntMinusOne 1)
  let layers ← readTemplates MAX_TEMPLATES 0 0
  let spatialLayers ← op (add 64 layers.2 1)
  let dtis ← op (mul 64 layers.1.length numDecodeTargets)
  let _ ← times (read 2) dtis
  let templates ← layers.1.mapM readTemplateFdiffs
  let chains ← op (add 32 numDecodeTargets 1)
  let numChains ← ns chains
  let templates ← readAllChains numChains numDecodeTargets templates
  let resolutions ← readBool
  let _ ← optionally resolutions (times (do let _ ← read 16; read 16) spatialLayers) []
  pure { templateIdOffset, numDecodeTargets, numChains, templates }

/-! ## The packet -/

def readCustomFdiffs : (turns : ℕ) → Read ℕ
  | 0 => throw .spins
  | turns + 1 => do
    let size ← read 2
    if size = 0 then pure 0
    else do
      let bits ← op (mul 64 size 4)
      let _ ← read bits
      let n ← readCustomFdiffs turns
      op (add 64 n 1)

def countFdiffs : Read ℕ := do
  let left ← left
  readCustomFdiffs (left + 1)

def readExtended : Read Extended := do
  let structurePresent ← readBool
  let activeDtPresent ← readBool
  let customDtis ← readBool
  let customFdiffs ← readBool
  let customChains ← readBool
  let attached ← optionally structurePresent (some <$> parseStructure) none
  pure { activeDtPresent, customDtis, customFdiffs, customChains, attached }

def readHeader (len : ℕ) : Read (ℕ × ℕ × Extended) := do
  let _ ← read 2
  let templateId ← read 6
  let frameNumber ← read 16
  let extended ← optionally (3 < len) readExtended .absent
  pure (templateId, frameNumber % 2 ^ 16, extended)

def readFrame (s : Structure) (templateId frameNumber : ℕ) (e : Extended) : Read Descriptor := do
  let _ ← optionally e.activeDtPresent (read s.numDecodeTargets) 0
  let sum ← op (add 64 templateId MAX_TEMPLATES)
  let diff ← op (sub sum s.templateIdOffset)
  match s.templates[diff % MAX_TEMPLATES]? with
  | none => throw (.err .InvalidTemplate)
  | some tmpl =>
    let _ ← optionally e.customDtis (times (read 2) s.numDecodeTargets) []
    let fdiffCount ← optionally e.customFdiffs countFdiffs tmpl.fdiffs.length
    let chainDiffs ← optionally e.customChains (readChains 8 s.numChains) tmpl.chainDiffs
    pure { frameNumber, temporalLayer := tmpl.temporal, isKeyframe := fdiffCount = 0,
           attachesStructure := e.attached.isSome, chainDiffs }

/-- `Parser::parse`. -/
def parse (p : Parser) (ext : List UInt8) :
    Parser × Except (Stop Error) (Option Descriptor) :=
  if ext.isEmpty then (p, .ok none)
  else
    match readHeader ext.length ⟨ext, 0⟩ with
    | .error e => (p, .error e)
    | .ok ((templateId, frameNumber, e), br) =>
      let p := if e.attached.isSome then ⟨e.attached⟩ else p
      match p.structure_ with
      | none => (p, .error (.err .NoStructure))
      | some s =>
        match readFrame s templateId frameNumber e br with
        | .error e => (p, .error e)
        | .ok (d, _) => (p, .ok (some d))

/-! ## The bit reader agrees -/

/-- A reader in range, of a buffer whose bits can be counted. -/
structure Sound (br : BitReader) : Prop where
  pos_le : br.pos ≤ 8 * br.buf.length
  len_lt : 8 * br.buf.length < 2 ^ 64

variable {br : BitReader} {n turns : ℕ}

lemma remaining_ok (h : Sound br) : remaining br = .ok br.remaining := by
  have hlen : br.buf.length * 8 < 2 ^ 64 := by
    rw [Nat.mul_comm]
    exact h.len_lt
  have hpos : br.pos ≤ br.buf.length * 8 := by
    rw [Nat.mul_comm]
    exact h.pos_le
  rw [remaining, mul_ok hlen]
  refine (sub_ok hpos).trans ?_
  rw [BitReader.remaining, Nat.mul_comm]

lemma readLoop_ok (buf : List UInt8) {pos v : ℕ} (ht : n ≤ turns) (hn : pos + n ≤ 8 * buf.length)
    (hlen : 8 * buf.length < 2 ^ 64) :
    readLoop buf turns pos n v = .ok (Dd.readLoop buf turns pos n v) := by
  induction turns generalizing pos n v with
  | zero =>
    obtain rfl : n = 0 := by omega
    rfl
  | succ turns ih =>
    rw [readLoop, Dd.readLoop]
    by_cases h0 : n = 0
    · rw [if_pos h0, if_pos h0]
    rw [if_neg h0, if_neg h0]
    dsimp only
    have hoff : pos % 8 < 8 := Nat.mod_lt _ (by decide)
    have hbyte : buf[pos / 8]? = some (buf.getD (pos / 8) 0) := by
      have hlt : pos / 8 < buf.length := by omega
      rw [List.getElem?_eq_getElem hlt, List.getD_eq_getElem _ _ hlt]
    rw [sub_ok hoff.le]
    dsimp only [bind, Except.bind]
    generalize htake : min (8 - pos % 8) n = take
    have hone : (1 <<< take) % 2 ^ 16 = 2 ^ take := by
      rw [Nat.shiftLeft_eq, Nat.one_mul]
      exact Nat.mod_eq_of_lt (Nat.pow_lt_pow_right (by decide) (by omega))
    have hmask : (2 ^ take - 1) % 2 ^ 8 = 2 ^ take - 1 := by
      have hle : 2 ^ take ≤ 2 ^ 8 := Nat.pow_le_pow_right (by decide) (by omega)
      have hpos : 0 < 2 ^ take := Nat.two_pow_pos take
      exact Nat.mod_eq_of_lt (by omega)
    rw [index_ok hbyte]
    dsimp only
    rw [sub_ok (by omega : take ≤ 8 - pos % 8)]
    dsimp only
    rw [shr_ok (by omega : 8 - pos % 8 - take < 8)]
    dsimp only
    rw [shl_ok (by omega : take < 16)]
    dsimp only
    rw [hone, sub_ok Nat.one_le_two_pow]
    dsimp only
    rw [shl_ok (by omega : take < 32)]
    dsimp only
    rw [add_ok (by omega : pos + take < 2 ^ 64)]
    dsimp only
    rw [sub_ok (by omega : take ≤ n)]
    dsimp only
    rw [hmask, ih (by omega) (by omega)]

/-- **`read(n)`**: a value of `n` bits. -/
lemma agrees_read (h : Sound br) (hn : n ≤ 32) :
    Agrees (read n) (Dd.read n) br fun v br' =>
      Sound br' ∧ v < 2 ^ n ∧ br'.remaining + n = br.remaining := by
  by_cases h0 : n = 0
  · subst h0
    exact .pure ⟨h, Nat.one_pos, rfl⟩
  by_cases hleft : br.remaining < n
  · have hread : Dd.read n br = .error .Eof := by rw [Dd.read, if_neg h0, if_pos hleft]
    refine ⟨?_, fun v br' hrun => ?_⟩
    · rw [hread, read, if_neg h0, remaining_ok h]
      exact if_pos hleft
    · rw [hread] at hrun
      cases hrun
  have hfit : br.pos + n ≤ 8 * br.buf.length := by
    have hpos := h.pos_le
    rw [BitReader.remaining] at hleft
    omega
  have hroom : (0 + 1) * 2 ^ n ≤ 2 ^ 32 := by
    rw [Nat.zero_add, Nat.one_mul]
    exact Nat.pow_le_pow_right (by decide) hn
  have hloop := readLoop_eq br.buf le_rfl hfit hroom
  have hread : Dd.read n br = .ok ((Dd.readLoop br.buf n br.pos n 0).1,
      { br with pos := (Dd.readLoop br.buf n br.pos n 0).2 }) := by
    rw [Dd.read, if_neg h0, if_neg hleft]
  refine ⟨?_, fun v br' hrun => ?_⟩
  · rw [hread, read, if_neg h0, remaining_ok h]
    refine (if_neg hleft).trans ?_
    rw [readLoop_ok br.buf le_rfl hfit h.len_lt]
    rfl
  · rw [hread, hloop] at hrun
    obtain ⟨rfl, rfl⟩ := Prod.mk.inj (Except.ok.inj hrun)
    refine ⟨⟨hfit, h.len_lt⟩, ?_, ?_⟩
    · have hbits := Lib.Bits.ofBits_lt (((Lib.Bits.bytesBits br.buf).drop br.pos).take n)
      rw [Nat.zero_mul, Nat.zero_add]
      exact hbits.trans_le (Nat.pow_le_pow_right (by decide) (List.length_take_le _ _))
    · rw [BitReader.remaining] at hleft ⊢
      rw [BitReader.remaining]
      dsimp only
      omega

lemma agrees_left (h : Sound br) :
    Agrees left Dd.remaining br fun n br' => n = br.remaining ∧ br' = br := by
  refine ⟨?_, fun n br' hrun => ?_⟩
  · rw [left, remaining_ok h]
    rfl
  · obtain ⟨rfl, rfl⟩ := Prod.mk.inj (Except.ok.inj hrun)
    exact ⟨rfl, rfl⟩

lemma agrees_readBool (h : Sound br) :
    Agrees readBool Dd.readBool br fun _ br' =>
      Sound br' ∧ br'.remaining + 1 = br.remaining :=
  (agrees_read h (by decide)).bind fun _ _ hpost => .pure ⟨hpost.1, hpost.2.2⟩

lemma ns_eq (hlt : ¬ n ≤ 1) (hn : n < 2 ^ 31) :
    ns n = read (n.size - 1) >>= fun v =>
      if v < 2 ^ n.size - n then pure v
      else read 1 >>= fun extra => op (shl 32 v 1) >>= fun twice =>
        op (add 32 twice extra) >>= fun sum => op (sub sum (2 ^ n.size - n)) := by
  have hsize : n.size ≤ 31 := Nat.size_le.mpr hn
  have hsize_pos : 0 < n.size := Nat.size_pos.mpr (by omega)
  have hwidth : 32 - leadingZeros n = n.size := by
    rw [leadingZeros]
    omega
  have hone : (1 <<< n.size) % 2 ^ 32 = 2 ^ n.size := by
    rw [Nat.shiftLeft_eq, Nat.one_mul]
    exact Nat.mod_eq_of_lt (Nat.pow_lt_pow_right (by decide) (by omega))
  rw [ns, if_neg hlt, sub_ok (by rw [leadingZeros]; omega), op_ok_bind, hwidth, shl_ok (by omega),
    op_ok_bind, hone, sub_ok (Nat.lt_size_self n).le, op_ok_bind, sub_ok hsize_pos, op_ok_bind]

/-- **`ns(n)`**: a value below `n`. -/
lemma agrees_ns (h : Sound br) (hpos : 1 ≤ n) (hn : n < 2 ^ 31) :
    Agrees (ns n) (Dd.ns n) br fun v br' => Sound br' ∧ v < n := by
  by_cases hlt : n ≤ 1
  · rw [ns, Dd.ns, if_pos hlt, if_pos hlt]
    exact .pure ⟨h, hpos⟩
  rw [ns_eq hlt hn, Dd.ns, if_neg hlt]
  have hsize : n.size ≤ 31 := Nat.size_le.mpr hn
  have hsize_pos : 0 < n.size := Nat.size_pos.mpr hpos
  have htop : n < 2 ^ n.size := Nat.lt_size_self n
  have hhalf : 2 ^ (n.size - 1) ≤ n := Nat.lt_size.mp (by omega)
  have hdouble : 2 ^ n.size = 2 * 2 ^ (n.size - 1) := by
    rw [← Nat.pow_succ', Nat.succ_eq_add_one, Nat.sub_add_cancel hsize_pos]
  have hmax : 2 ^ n.size ≤ 2 ^ 31 := Nat.pow_le_pow_right (by decide) hsize
  refine (agrees_read h (by omega)).bind fun v br₁ hpost => ?_
  obtain ⟨h₁, hv, _⟩ := hpost
  refine .ite (fun hshort => .pure ⟨h₁, by omega⟩) fun hlong => ?_
  refine (agrees_read h₁ (by decide)).bind fun extra br₂ hpost => ?_
  obtain ⟨h₂, hextra, _⟩ := hpost
  have htwice : (v <<< 1) % 2 ^ 32 = v <<< 1 := by
    rw [Nat.shiftLeft_eq]
    exact Nat.mod_eq_of_lt (by omega)
  have hshift : v <<< 1 = v * 2 := Nat.shiftLeft_eq v 1
  refine .op (b := v <<< 1) ?_ (.op (b := v <<< 1 + extra) ?_ (.op_last ?_ ⟨h₂, ?_⟩))
  · rw [shl_ok (by decide), htwice]
  · exact add_ok (by omega)
  · exact sub_ok (by omega)
  · omega

/-! ## The structure is small -/

/-- What bounds the counts of the packets that refer to a structure. -/
structure Small (s : Structure) : Prop where
  offset_lt : s.templateIdOffset < 64
  targets_le : s.numDecodeTargets ≤ 32
  chains_le : s.numChains ≤ 32

variable {spatial temporal room : ℕ}

lemma nextLayer_ok (idc : ℕ) (hs : spatial < 255) (ht : temporal < 255) :
    nextLayer idc spatial temporal = .ok (Dd.nextLayer idc spatial temporal) := by
  match idc with
  | 0 => rfl
  | 1 => rw [nextLayer, add_ok (by omega : temporal + 1 < 2 ^ 8)]; rfl
  | 2 => rw [nextLayer, add_ok (by omega : spatial + 1 < 2 ^ 8)]; rfl
  | idc + 3 => rfl

lemma nextLayer_le (idc spatial temporal : ℕ) :
    (Dd.nextLayer idc spatial temporal).1 ≤ spatial + 1 ∧
      (Dd.nextLayer idc spatial temporal).2 ≤ temporal + 1 := by
  unfold Dd.nextLayer
  split <;> constructor <;> simp

lemma agrees_readTemplates (h : Sound br) (hs : spatial + room ≤ 64) (ht : temporal + room ≤ 64) :
    Agrees (readTemplates room spatial temporal) (Dd.readTemplates room spatial temporal) br
      fun r br' => Sound br' ∧ r.1.length ≤ room ∧ r.2 ≤ 64 := by
  induction room generalizing br spatial temporal with
  | zero => exact .throw _
  | succ room ih =>
    rw [readTemplates, Dd.readTemplates]
    refine (agrees_read h (by decide)).bind fun idc br₁ hpost => ?_
    obtain ⟨h₁, _, _⟩ := hpost
    refine .op (nextLayer_ok idc (by omega) (by omega)) ?_
    obtain ⟨hspatial, htemporal⟩ := nextLayer_le idc spatial temporal
    refine (agrees_left h₁).bind fun n br₂ hpost => ?_
    obtain ⟨_, hbr⟩ := hpost
    subst hbr
    refine .ite (fun _ => .pure ⟨h₁, ?_, ?_⟩) fun _ => ?_
    · exact Nat.succ_le_succ (Nat.zero_le room)
    · exact hspatial.trans (by omega)
    · refine (ih h₁ (by omega) (by omega)).bind fun r br₃ hpost => ?_
      obtain ⟨h₃, hlen, hr⟩ := hpost
      exact .pure ⟨h₃, Nat.succ_le_succ hlen, hr⟩

lemma agrees_readFdiffs (h : Sound br) (ht : br.remaining < turns) :
    Agrees (readFdiffs turns) (Dd.readFdiffs turns) br fun _ br' => Sound br' := by
  induction turns generalizing br with
  | zero => omega
  | succ turns ih =>
    rw [readFdiffs, Dd.readFdiffs]
    refine (agrees_readBool h).bind fun follows br₁ hpost => ?_
    obtain ⟨h₁, hleft₁⟩ := hpost
    refine .ite (fun _ => ?_) fun _ => .pure h₁
    refine (agrees_read h₁ (by decide)).bind fun v br₂ hpost => ?_
    obtain ⟨h₂, hv, hleft₂⟩ := hpost
    refine .op (add_ok (by omega)) ?_
    exact (ih h₂ (by omega)).bind fun fdiffs br₃ h₃ => .pure h₃

lemma agrees_readTemplateFdiffs (t : Template) (h : Sound br) :
    Agrees (readTemplateFdiffs t) (Dd.readTemplateFdiffs t) br fun _ br' => Sound br' := by
  refine (agrees_left h).bind fun n br₁ hpost => ?_
  obtain ⟨hn, hbr⟩ := hpost
  subst hn hbr
  exact (agrees_readFdiffs h (Nat.lt_succ_self _)).bind fun fdiffs br₂ h₂ => .pure h₂

lemma agrees_times {α : Type} {mc : Read α} {m : Dd.Read α} {K : α → Prop}
    (hm : ∀ br, Sound br → Agrees mc m br fun a br' => Sound br' ∧ K a) (n : ℕ) (h : Sound br) :
    Agrees (times mc n) (times m n) br fun _ br' => Sound br' :=
  (Agrees.times hm n h).imp fun _ _ hpost => hpost.1

lemma agrees_mapM {f : Template → Read Template} {g : Template → Dd.Read Template}
    (hf : ∀ t br, Sound br → Agrees (f t) (g t) br fun _ br' => Sound br')
    (templates : List Template) (h : Sound br) :
    Agrees (templates.mapM f) (templates.mapM g) br fun _ br' => Sound br' :=
  (Agrees.mapM (L := fun _ => True) (K := fun _ => True)
    (fun t br _ hbr => (hf t br hbr).imp fun _ _ hpost => ⟨hpost, trivial⟩)
    (fun _ _ => trivial) h).imp fun _ _ hpost => hpost.1

lemma agrees_readChains {width : ℕ} (hw : width ≤ 32) (numChains : ℕ) (h : Sound br) :
    Agrees (readChains width numChains) (Dd.readChains width numChains) br
      fun _ br' => Sound br' := by
  refine (agrees_times (K := fun _ => True) (fun br hbr => ?_) numChains h).bind
    fun diffs br₁ h₁ => .pure h₁
  exact (agrees_read hbr hw).imp fun _ _ hpost => ⟨hpost.1, trivial⟩

lemma agrees_readTemplateChains (numChains : ℕ) (t : Template) (h : Sound br) :
    Agrees (readTemplateChains numChains t) (Dd.readTemplateChains numChains t) br
      fun _ br' => Sound br' :=
  (agrees_readChains (by decide) numChains h).bind fun _ _ h₁ => .pure h₁

lemma agrees_readAllChains {numChains : ℕ} (hn : numChains ≤ 32) (numDecodeTargets : ℕ)
    (templates : List Template) (h : Sound br) :
    Agrees (readAllChains numChains numDecodeTargets templates)
      (Dd.readAllChains numChains numDecodeTargets templates) br fun _ br' => Sound br' := by
  refine .ite (fun hpos => ?_) fun _ => .pure h
  refine (agrees_times (fun br hbr => agrees_ns hbr hpos (by omega)) numDecodeTargets h).bind
    fun _ br₁ h₁ => ?_
  exact agrees_mapM (fun t _ => agrees_readTemplateChains numChains t) templates h₁

/-- **What is kept of a structure** bounds the counts of the packets to come. -/
lemma agrees_parseStructure (h : Sound br) :
    Agrees parseStructure Dd.parseStructure br fun s br' => Sound br' ∧ Small s := by
  refine (agrees_read h (by decide)).bind fun offset br₁ hpost => ?_
  obtain ⟨h₁, hoffset, _⟩ := hpost
  refine (agrees_read h₁ (by decide)).bind fun dtCntMinusOne br₂ hpost => ?_
  obtain ⟨h₂, hdt, _⟩ := hpost
  have htargets : dtCntMinusOne + 1 ≤ 32 := hdt
  refine .op (add_ok (by omega)) ?_
  refine (agrees_readTemplates h₂ (by decide) (by decide)).bind
    fun layers br₃ hpost => ?_
  obtain ⟨h₃, hlen, hspatial⟩ := hpost
  have hlen : layers.1.length ≤ 64 := hlen
  have hdtis : layers.1.length * (dtCntMinusOne + 1) ≤ 64 * 32 :=
    Nat.mul_le_mul hlen htargets
  refine .op (add_ok (by omega)) (.op (mul_ok (by omega)) ?_)
  refine (agrees_times (K := fun _ => True) (fun br hbr => (agrees_read hbr (by decide)).imp
    fun _ _ hpost => ⟨hpost.1, trivial⟩) _ h₃).bind fun _ br₄ h₄ => ?_
  refine (agrees_mapM (fun t _ => agrees_readTemplateFdiffs t) layers.1 h₄).bind
    fun templates br₅ h₅ => ?_
  refine .op (add_ok (by omega)) ?_
  refine (agrees_ns h₅ (by omega) (by omega)).bind fun numChains br₆ hpost => ?_
  obtain ⟨h₆, hchains⟩ := hpost
  have hchains : numChains ≤ 32 := (Nat.lt_succ_iff.mp hchains).trans htargets
  refine (agrees_readAllChains hchains _ templates h₆).bind fun templates br₇ h₇ => ?_
  refine (agrees_readBool h₇).bind fun resolutions br₈ hpost => ?_
  obtain ⟨h₈, _⟩ := hpost
  refine (Agrees.optionally (Q := fun _ => Sound) ?_ h₈).bind fun _ br₉ h₉ => ?_
  · refine agrees_times (K := fun _ => True) (fun br hbr => ?_) _ h₈
    refine (agrees_read hbr (by decide)).bind fun _ br₉ hpost => ?_
    obtain ⟨h₉, _, _⟩ := hpost
    exact (agrees_read h₉ (by decide)).imp fun _ _ hpost => ⟨hpost.1, trivial⟩
  · exact .pure ⟨h₉, hoffset, htargets, hchains⟩

/-! ## Packets -/

lemma agrees_readCustomFdiffs (h : Sound br) (ht : br.remaining < turns) :
    Agrees (readCustomFdiffs turns) (Dd.readCustomFdiffs turns) br
      fun n br' => Sound br' ∧ n + br'.remaining ≤ br.remaining := by
  induction turns generalizing br with
  | zero => omega
  | succ turns ih =>
    rw [readCustomFdiffs, Dd.readCustomFdiffs]
    refine (agrees_read h (by decide)).bind fun size br₁ hpost => ?_
    obtain ⟨h₁, hsize, hleft₁⟩ := hpost
    refine .ite (fun _ => .pure ⟨h₁, by omega⟩) fun _ => ?_
    refine .op (mul_ok (by omega)) ?_
    refine (agrees_read h₁ (by omega)).bind fun _ br₂ hpost => ?_
    obtain ⟨h₂, _, hleft₂⟩ := hpost
    refine (ih h₂ (by omega)).bind fun n br₃ hpost => ?_
    obtain ⟨h₃, hn⟩ := hpost
    have hlen := h.len_lt
    have hbits : br.remaining ≤ 8 * br.buf.length := Nat.sub_le _ _
    exact .op_last (add_ok (by omega)) ⟨h₃, by omega⟩

lemma agrees_countFdiffs (h : Sound br) :
    Agrees countFdiffs Dd.countFdiffs br fun _ br' => Sound br' := by
  refine (agrees_left h).bind fun n br₁ hpost => ?_
  obtain ⟨hn, hbr⟩ := hpost
  subst hn hbr
  exact (agrees_readCustomFdiffs h (Nat.lt_succ_self _)).imp fun _ _ hpost => hpost.1

lemma agrees_readExtended (h : Sound br) :
    Agrees readExtended Dd.readExtended br
      fun e br' => Sound br' ∧ ∀ s ∈ e.attached, Small s := by
  refine (agrees_readBool h).bind fun present br₁ hpost => ?_
  obtain ⟨h₁, _⟩ := hpost
  refine (agrees_readBool h₁).bind fun _ br₂ hpost => ?_
  obtain ⟨h₂, _⟩ := hpost
  refine (agrees_readBool h₂).bind fun _ br₃ hpost => ?_
  obtain ⟨h₃, _⟩ := hpost
  refine (agrees_readBool h₃).bind fun _ br₄ hpost => ?_
  obtain ⟨h₄, _⟩ := hpost
  refine (agrees_readBool h₄).bind fun _ br₅ hpost => ?_
  obtain ⟨h₅, _⟩ := hpost
  refine (Agrees.optionally (Q := fun a br' => Sound br' ∧ ∀ s ∈ a, Small s) ?_ ?_).bind
    fun attached br₆ h₆ => .pure h₆
  · refine (agrees_parseStructure h₅).map.imp ?_
    rintro _ br₆ ⟨s, ⟨h₆, hsmall⟩, rfl⟩
    exact ⟨h₆, fun s' hs' => Option.some.inj hs' ▸ hsmall⟩
  · exact ⟨h₅, fun s hs => by cases hs⟩

lemma agrees_readHeader (len : ℕ) (h : Sound br) :
    Agrees (readHeader len) (Dd.readHeader len) br
      fun r br' => Sound br' ∧ r.1 < 64 ∧ ∀ s ∈ r.2.2.attached, Small s := by
  refine (agrees_read h (by decide)).bind fun _ br₁ hpost => ?_
  obtain ⟨h₁, _, _⟩ := hpost
  refine (agrees_read h₁ (by decide)).bind fun templateId br₂ hpost => ?_
  obtain ⟨h₂, hid, _⟩ := hpost
  refine (agrees_read h₂ (by decide)).bind fun frameNumber br₃ hpost => ?_
  obtain ⟨h₃, _, _⟩ := hpost
  refine (Agrees.optionally (agrees_readExtended h₃) ?_).bind
    fun e br₄ hpost => .pure ⟨hpost.1, hid, hpost.2⟩
  exact ⟨h₃, fun s hs => by cases hs⟩

lemma agrees_readFrame {s : Structure} {templateId : ℕ} (hs : Small s) (hid : templateId < 64)
    (frameNumber : ℕ) (e : Extended) (h : Sound br) :
    Agrees (readFrame s templateId frameNumber e) (Dd.readFrame s templateId frameNumber e) br
      fun _ br' => Sound br' := by
  have hoffset := hs.offset_lt
  have hmax : MAX_TEMPLATES = 64 := rfl
  refine (Agrees.optionally (Q := fun _ => Sound) ((agrees_read h hs.targets_le).imp
    fun _ _ hpost => hpost.1) h).bind fun _ br₁ h₁ => ?_
  refine .op (add_ok (by omega)) (.op (sub_ok (by omega)) ?_)
  dsimp only
  cases s.templates[(templateId + MAX_TEMPLATES - s.templateIdOffset) % MAX_TEMPLATES]? with
  | none => exact .throw _
  | some tmpl =>
    refine (Agrees.optionally (Q := fun _ => Sound) (agrees_times (K := fun _ => True)
      (fun br hbr => (agrees_read hbr (by decide)).imp fun _ _ hpost => ⟨hpost.1, trivial⟩) _ h₁)
      h₁).bind fun _ br₂ h₂ => ?_
    refine (Agrees.optionally (Q := fun _ => Sound) (agrees_countFdiffs h₂) h₂).bind
      fun _ br₃ h₃ => ?_
    refine (Agrees.optionally (Q := fun _ => Sound) (agrees_readChains (by decide) _ h₃) h₃).bind
      fun _ br₄ h₄ => ?_
    exact .pure h₄

/-- A parser that keeps a small structure, if any. -/
def SmallParser (p : Parser) : Prop := ∀ s ∈ p.structure_, Small s

/-- **A packet**: the checked parser answers as the other one does, and keeps what it keeps. -/
lemma parse_ok {p : Parser} (hp : SmallParser p) {ext : List UInt8} (hext : ext.length < 2 ^ 61) :
    parse p ext = ((p.parse ext).1, lift (p.parse ext).2) ∧ SmallParser (p.parse ext).1 := by
  rw [parse, Parser.parse]
  by_cases hempty : ext.isEmpty
  · rw [if_pos hempty, if_pos hempty]
    exact ⟨rfl, hp⟩
  rw [if_neg hempty, if_neg hempty]
  have hsound : Sound ⟨ext, 0⟩ := ⟨Nat.zero_le _, by dsimp only; omega⟩
  have hheader := agrees_readHeader ext.length hsound
  rw [hheader.eq]
  cases hrun : Dd.readHeader ext.length ⟨ext, 0⟩ with
  | error err => exact ⟨rfl, hp⟩
  | ok r =>
    obtain ⟨⟨templateId, frameNumber, e⟩, br⟩ := r
    obtain ⟨hbr, hid, hattached⟩ := hheader.post _ br hrun
    dsimp only [lift_ok]
    generalize hkept : (if e.attached.isSome then (⟨e.attached⟩ : Parser) else p) = kept
    have hsmall : SmallParser kept := by
      rw [← hkept]
      split_ifs
      · exact hattached
      · exact hp
    cases hstructure : kept.structure_ with
    | none => exact ⟨rfl, hsmall⟩
    | some s =>
      have hframe := agrees_readFrame (hsmall s hstructure) hid frameNumber e hbr
      dsimp only
      rw [hframe.eq]
      cases Dd.readFrame s templateId frameNumber e br with
      | error err => exact ⟨rfl, hsmall⟩
      | ok d => exact ⟨rfl, hsmall⟩

lemma outputs_ok {p : Parser} (hp : SmallParser p) {exts : List (List UInt8)}
    (h : ∀ ext ∈ exts, ext.length < 2 ^ 61) :
    Lib.Transducer.outputs parse p exts =
      (Lib.Transducer.outputs Parser.parse p exts).map lift := by
  induction exts generalizing p with
  | nil => rfl
  | cons ext exts ih =>
    obtain ⟨hext, hexts⟩ := List.forall_mem_cons.mp h
    obtain ⟨hparse, hkept⟩ := parse_ok hp hext
    rw [Lib.Transducer.outputs, Lib.Transducer.outputs, List.map_cons, hparse, ih hkept hexts]

/-- A reader that is not sound cannot read a bit. -/
lemma sound_of_read {v : ℕ} {br' : BitReader} (h0 : n ≠ 0) (h : read n br = .ok (v, br')) :
    Sound br := by
  rw [read, if_neg h0] at h
  by_cases hlen : br.buf.length * 8 < 2 ^ 64
  · by_cases hpos : br.pos ≤ br.buf.length * 8
    · exact ⟨by omega, by omega⟩
    · have hleft : remaining br = .error .panic := by
        rw [remaining, mul_ok hlen]
        exact if_neg hpos
      rw [hleft] at h
      cases h
  · have hleft : remaining br = .error .panic := by
      rw [remaining, mul, if_neg hlen]
      rfl
    rw [hleft] at h
    cases h

/-- **`ns(n)` is below `n`**, of any reader. -/
lemma ns_lt (hpos : 1 ≤ n) (hn : n < 2 ^ 31) {v : ℕ} {br' : BitReader}
    (h : ns n br = .ok (v, br')) : v < n := by
  by_cases hbr : Sound br
  · exact ((agrees_ns hbr hpos hn).post_checked h).2
  · by_cases hone : n ≤ 1
    · rw [ns, if_pos hone] at h
      cases h
      exact hpos
    · have hbits : n.size - 1 ≠ 0 := by
        have hsize : 1 < n.size := Nat.lt_size.mpr (by omega)
        omega
      rw [ns_eq hone hn] at h
      cases hread : read (n.size - 1) br with
      | error e =>
        change (read (n.size - 1) br).bind _ = _ at h
        rw [hread] at h
        cases h
      | ok r => exact absurd (sound_of_read hbits hread) hbr

/-- **Parsing is safe.** -/
theorem parse_safe (exts : List (List UInt8)) (h : ∀ ext ∈ exts, ext.length < 2 ^ 61) :
    Lib.Transducer.outputs parse .default exts =
        (Lib.Transducer.outputs Parser.parse .default exts).map lift ∧
      (∀ o ∈ Lib.Transducer.outputs parse .default exts,
        o ≠ .error .panic ∧ o ≠ .error .spins) ∧
      ∀ n, 1 ≤ n → n ≤ 33 → ∀ br v br', ns n br = .ok (v, br') → v < n := by
  have hdefault : SmallParser .default := fun s hs => by cases hs
  have houtputs := outputs_ok hdefault h
  refine ⟨houtputs, fun o ho => ?_, fun n hpos hn br v br' hrun => ns_lt hpos (by omega) hrun⟩
  rw [houtputs] at ho
  obtain ⟨x, -, rfl⟩ := List.mem_map.mp ho
  exact lift_safe x

/-- A packet with two decode targets, one that ends early, and one that refers to the first. -/
theorem parse_safe_truncated :
    Lib.Transducer.outputs parse .default [[0x80, 0, 1, 0x80, 1], [0x80], [0x81, 0, 2]] =
        (Lib.Transducer.outputs Parser.parse .default
          [[0x80, 0, 1, 0x80, 1], [0x80], [0x81, 0, 2]]).map lift ∧
      ∀ o ∈ Lib.Transducer.outputs parse .default [[0x80, 0, 1, 0x80, 1], [0x80], [0x81, 0, 2]],
        o ≠ .error .panic ∧ o ≠ .error .spins := by
  obtain ⟨houtputs, hsafe, -⟩ := parse_safe [[0x80, 0, 1, 0x80, 1], [0x80], [0x81, 0, 2]] (by decide)
  exact ⟨houtputs, hsafe⟩

lemma parse_long (p : Parser) {ext : List UInt8} (h : 2 ^ 61 ≤ ext.length) :
    parse p ext = (p, .error .panic) := by
  have hempty : ext.isEmpty = false := by
    rw [List.isEmpty_eq_false_iff]
    rintro rfl
    exact absurd h (by decide)
  have hleft : remaining ⟨ext, 0⟩ = .error .panic := by
    rw [remaining, mul, if_neg (by dsimp only; omega)]
    rfl
  have hread : read 2 ⟨ext, 0⟩ = .error .panic := by
    rw [read, if_neg (by decide), hleft]
    rfl
  have hheader : readHeader ext.length ⟨ext, 0⟩ = .error .panic := by
    change (read 2 ⟨ext, 0⟩).bind _ = _
    rw [hread]
    rfl
  rw [parse, hempty, hheader]
  rfl

/-- With 2^61 bytes `len() * 8` overflows. -/
theorem parse_overflows :
    parse .default (List.replicate (2 ^ 61) 0) = (.default, .error .panic) :=
  parse_long .default (by rw [List.length_replicate])

end VoiceHub.Sfu.Dd.Checked
