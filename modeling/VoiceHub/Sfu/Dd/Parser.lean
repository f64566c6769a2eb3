import Mathlib
import VoiceHub.Lib.Reader

/-!
The parser of the AV1 dependency descriptor, an RTP header extension.

A parser keeps the dependency structure of the stream: the first packet attaches it, later
packets name its templates.
-/

namespace VoiceHub.Sfu.Dd

open VoiceHub.Lib.Reader (times optionally)

/-- `template_id` is 6 bits. -/
def MAX_TEMPLATES : ℕ := 64

inductive Error
  | Eof | NoStructure | InvalidTemplate | TooManyTemplates
deriving DecidableEq, Repr

/-- What the forward path uses of a packet's descriptor. -/
structure Descriptor where
  frameNumber : ℕ
  temporalLayer : ℕ
  isKeyframe : Bool
  attachesStructure : Bool
  chainDiffs : List ℕ
deriving DecidableEq, Repr

/-! ## The bit reader -/

structure BitReader where
  buf : List UInt8
  pos : ℕ
deriving DecidableEq

def BitReader.remaining (br : BitReader) : ℕ := 8 * br.buf.length - br.pos

/-- The loop of `read`, with what is read so far as a `u32`. A turn takes at least one bit, so
`n` turns are enough for `n` bits. -/
def readLoop (buf : List UInt8) : (turns pos n v : ℕ) → ℕ × ℕ
  | 0, pos, _, v => (v, pos)
  | turns + 1, pos, n, v =>
    if n = 0 then (v, pos)
    else
      let off := pos % 8
      let left := 8 - off
      let take := min left n
      let chunk := ((buf.getD (pos / 8) 0).toNat >>> (left - take)) &&& (2 ^ take - 1)
      readLoop buf turns (pos + take) (n - take) ((v <<< take) % 2 ^ 32 ||| chunk)

abbrev Read := StateT BitReader (Except Error)

def remaining : Read ℕ := fun br => .ok (br.remaining, br)

/-- `read(n)`, for `n` up to 32. -/
def read (n : ℕ) : Read ℕ := fun br =>
  if n = 0 then .ok (0, br)
  else if br.remaining < n then .error .Eof
  else
    let (v, pos) := readLoop br.buf n br.pos n 0
    .ok (v, { br with pos })

def readBool : Read Bool := do
  let v ← read 1
  pure (v ≠ 0)

def ns (n : ℕ) : Read ℕ :=
  if n ≤ 1 then pure 0
  else do
    -- the number of bits of `n`
    let width := n.size
    let k := 2 ^ width - n
    let v ← read (width - 1)
    if v < k then pure v
    else do
      let extra ← read 1
      pure ((v <<< 1) + extra - k)

/-! ## The structure -/

structure Template where
  temporal : ℕ
  fdiffs : List ℕ
  chainDiffs : List ℕ
deriving DecidableEq

structure Structure where
  templateIdOffset : ℕ
  numDecodeTargets : ℕ
  numChains : ℕ
  templates : List Template
deriving DecidableEq

/-- The layers after a `next_layer_idc`. -/
def nextLayer (idc spatial temporal : ℕ) : ℕ × ℕ :=
  match idc with
  | 1 => (spatial, temporal + 1)
  | 2 => (spatial + 1, 0)
  | _ => (spatial, temporal)

/-- The loop over `next_layer_idc`, from a template of the given layers on, while `room` more
templates fit. It returns the templates and the last spatial layer. -/
def readTemplates : (room spatial temporal : ℕ) → Read (List Template × ℕ)
  | 0, _, _ => throw .TooManyTemplates
  | room + 1, spatial, temporal => do
    let template : Template := { temporal, fdiffs := [], chainDiffs := [] }
    let idc ← read 2
    let next := nextLayer idc spatial temporal
    let left ← remaining
    if idc = 3 ∨ left = 0 then pure ([template], next.1)
    else do
      let others ← readTemplates room next.1 next.2
      pure (template :: others.1, others.2)

/-- `while br.bool()? { t.fdiffs.push(..) }`. Every turn takes a bit, so no more turns fit than
there are bits left. -/
def readFdiffs : (turns : ℕ) → Read (List ℕ)
  | 0 => throw .Eof
  | turns + 1 => do
    let follows ← readBool
    if follows then do
      let v ← read 4
      let fdiffs ← readFdiffs turns
      pure ((v % 2 ^ 8 + 1) :: fdiffs)
    else pure []

def readTemplateFdiffs (t : Template) : Read Template := do
  let left ← remaining
  let fdiffs ← readFdiffs (left + 1)
  pure { t with fdiffs }

/-- A chain diff of each chain, as a `u8`. -/
def readChains (width numChains : ℕ) : Read (List ℕ) := do
  let diffs ← times (read width) numChains
  pure (diffs.map (· % 2 ^ 8))

def readTemplateChains (numChains : ℕ) (t : Template) : Read Template := do
  let chainDiffs ← readChains 4 numChains
  pure { t with chainDiffs }

/-- The chains of the templates, if there are any. -/
def readAllChains (numChains numDecodeTargets : ℕ) (templates : List Template) :
    Read (List Template) :=
  if 0 < numChains then do
    -- decode_target_protected_by_chain
    let _ ← times (ns numChains) numDecodeTargets
    templates.mapM (readTemplateChains numChains)
  else pure templates

def parseStructure : Read Structure := do
  let templateIdOffset ← read 6
  let dtCntMinusOne ← read 5
  let numDecodeTargets := dtCntMinusOne + 1
  let layers ← readTemplates MAX_TEMPLATES 0 0
  let spatialLayers := layers.2 + 1
  -- decode target indications
  let _ ← times (read 2) (layers.1.length * numDecodeTargets)
  let templates ← layers.1.mapM readTemplateFdiffs
  let numChains ← ns (numDecodeTargets + 1)
  let templates ← readAllChains numChains numDecodeTargets templates
  let resolutions ← readBool
  let _ ← optionally resolutions (times (do let _ ← read 16; read 16) spatialLayers) []
  pure { templateIdOffset, numDecodeTargets, numChains, templates }

/-! ## The packet -/

structure Parser where
  structure_ : Option Structure
deriving DecidableEq

def Parser.default : Parser := ⟨none⟩

/-- The loop over `next_fdiff_size`: how many frame diffs there are. -/
def readCustomFdiffs : (turns : ℕ) → Read ℕ
  | 0 => throw .Eof
  | turns + 1 => do
    let size ← read 2
    if size = 0 then pure 0
    else do
      let _ ← read (size * 4)
      let n ← readCustomFdiffs turns
      pure (n + 1)

def countFdiffs : Read ℕ := do
  let left ← remaining
  readCustomFdiffs (left + 1)

/-- The five flags of the extended fields, and the structure that comes with them. -/
structure Extended where
  activeDtPresent : Bool
  customDtis : Bool
  customFdiffs : Bool
  customChains : Bool
  attached : Option Structure

def Extended.absent : Extended where
  activeDtPresent := false
  customDtis := false
  customFdiffs := false
  customChains := false
  attached := none

def readExtended : Read Extended := do
  let structurePresent ← readBool
  let activeDtPresent ← readBool
  let customDtis ← readBool
  let customFdiffs ← readBool
  let customChains ← readBool
  let attached ← optionally structurePresent (some <$> parseStructure) none
  pure { activeDtPresent, customDtis, customFdiffs, customChains, attached }

/-- The fields up to the attached structure. -/
def readHeader (len : ℕ) : Read (ℕ × ℕ × Extended) := do
  let _ ← read 2 -- start_of_frame, end_of_frame
  let templateId ← read 6
  let frameNumber ← read 16
  let extended ← optionally (3 < len) readExtended .absent
  pure (templateId, frameNumber % 2 ^ 16, extended)

/-- The rest of the packet, once the structure is known. -/
def readFrame (s : Structure) (templateId frameNumber : ℕ) (e : Extended) : Read Descriptor := do
  let _ ← optionally e.activeDtPresent (read s.numDecodeTargets) 0
  let idx := (templateId + MAX_TEMPLATES - s.templateIdOffset) % MAX_TEMPLATES
  match s.templates[idx]? with
  | none => throw .InvalidTemplate
  | some tmpl =>
    let _ ← optionally e.customDtis (times (read 2) s.numDecodeTargets) []
    let fdiffCount ← optionally e.customFdiffs countFdiffs tmpl.fdiffs.length
    let chainDiffs ← optionally e.customChains (readChains 8 s.numChains) tmpl.chainDiffs
    pure { frameNumber, temporalLayer := tmpl.temporal, isKeyframe := fdiffCount = 0,
           attachesStructure := e.attached.isSome, chainDiffs }

/-- `Parser::parse`: a structure that was read whole is kept, also when an error follows. -/
def Parser.parse (p : Parser) (ext : List UInt8) :
    Parser × Except Error (Option Descriptor) :=
  if ext.isEmpty then (p, .ok none)
  else
    match readHeader ext.length ⟨ext, 0⟩ with
    | .error e => (p, .error e)
    | .ok ((templateId, frameNumber, e), br) =>
      let p := if e.attached.isSome then ⟨e.attached⟩ else p
      match p.structure_ with
      | none => (p, .error .NoStructure)
      | some s =>
        match readFrame s templateId frameNumber e br with
        | .error e => (p, .error e)
        | .ok (d, _) => (p, .ok (some d))

end VoiceHub.Sfu.Dd
