import Mathlib
import VoiceHub.Lib.Bits
import VoiceHub.Sfu.Dd.Parser

/-!
The dependency descriptor as its specification lays it out, bit by bit.

A `DependencyStructure` carries what makes it well formed, so only well-formed ones can be
attached. What a packet says is read against the structure that was attached last; `Stream`
is a sequence of packets, each with the bytes that carry it.
-/

namespace VoiceHub.Sfu.Dd

open VoiceHub.Lib.Bits

/-! ## Structures -/

structure DependencyTemplate where
  spatialId : ℕ
  temporalId : ℕ
  dtis : List ℕ
  fdiffs : List ℕ
  chainFdiffs : List ℕ

/-- A template in a structure of `dtCnt` decode targets and `chainCnt` chains. -/
structure DependencyTemplate.Fits (t : DependencyTemplate) (dtCnt chainCnt : ℕ) : Prop where
  dtis : t.dtis.length = dtCnt
  dti : ∀ d ∈ t.dtis, d < 4
  fdiff : ∀ f ∈ t.fdiffs, 1 ≤ f ∧ f ≤ 16
  chainFdiffs : t.chainFdiffs.length = chainCnt
  chainFdiff : ∀ c ∈ t.chainFdiffs, c < 16

/-- The layers a template may have after another's: the same, the next temporal layer, or the
first temporal layer of the next spatial one. -/
def NextLayer (a b : DependencyTemplate) : Prop :=
  (b.spatialId = a.spatialId ∧ b.temporalId = a.temporalId) ∨
    (b.spatialId = a.spatialId ∧ b.temporalId = a.temporalId + 1) ∨
      (b.spatialId = a.spatialId + 1 ∧ b.temporalId = 0)

/-- The templates from the second on, each with the layers that may follow. -/
def Layered : DependencyTemplate → List DependencyTemplate → Prop
  | _, [] => True
  | a, b :: templates => NextLayer a b ∧ Layered b templates

/-- The spatial layer of the last template. -/
def maxSpatialId (first : DependencyTemplate) (others : List DependencyTemplate) : ℕ :=
  ((first :: others).getLast (by simp)).spatialId

structure DependencyStructure where
  templateIdOffset : ℕ
  dtCnt : ℕ
  first : DependencyTemplate
  others : List DependencyTemplate
  chainCnt : ℕ
  /-- The chain that protects each decode target, if there are chains. -/
  protectedBy : List ℕ
  /-- The width and the height of each spatial layer, less one. -/
  resolutions : Option (List (ℕ × ℕ))
  offset_lt : templateIdOffset < 64
  dtCnt_pos : 0 < dtCnt
  dtCnt_le : dtCnt ≤ 32
  templates_le : others.length < 64
  baseLayer : first.spatialId = 0 ∧ first.temporalId = 0
  layered : Layered first others
  templates_fit : ∀ t ∈ first :: others, t.Fits dtCnt chainCnt
  chainCnt_le : chainCnt ≤ dtCnt
  protectedBy_length : 0 < chainCnt → protectedBy.length = dtCnt
  protectedBy_lt : ∀ c ∈ protectedBy, c < chainCnt
  resolutions_length : ∀ rs ∈ resolutions, rs.length = maxSpatialId first others + 1
  resolutions_lt : ∀ rs ∈ resolutions, ∀ r ∈ rs, r.1 < 2 ^ 16 ∧ r.2 < 2 ^ 16

def DependencyStructure.templates (s : DependencyStructure) : List DependencyTemplate :=
  s.first :: s.others

/-- The template that an id names. -/
def DependencyStructure.template (s : DependencyStructure) (templateId : ℕ) :
    Option DependencyTemplate :=
  s.templates[(templateId + 64 - s.templateIdOffset) % 64]?

def nextLayerIdc (a b : DependencyTemplate) : ℕ :=
  if b.spatialId = a.spatialId then (if b.temporalId = a.temporalId then 0 else 1) else 2

/-- `template_layers()`. -/
def layerBits : DependencyTemplate → List DependencyTemplate → List Bool
  | _, [] => toBits 2 3
  | a, b :: templates => toBits 2 (nextLayerIdc a b) ++ layerBits b templates

def dtiBits (dtis : List ℕ) : List Bool := dtis.flatMap (toBits 2)

/-- The frame diffs of a template: a flag before each, and one that ends them. -/
def fdiffBits (fdiffs : List ℕ) : List Bool :=
  fdiffs.flatMap (fun f => true :: toBits 4 (f - 1)) ++ [false]

/-- `template_chains()`, less the count. -/
def chainBits (s : DependencyStructure) : List Bool :=
  if s.chainCnt = 0 then []
  else s.protectedBy.flatMap (nsBits s.chainCnt) ++
    s.templates.flatMap fun t => t.chainFdiffs.flatMap (toBits 4)

def resolutionBits (resolutions : Option (List (ℕ × ℕ))) : List Bool :=
  match resolutions with
  | none => [false]
  | some rs => true :: rs.flatMap fun r => toBits 16 r.1 ++ toBits 16 r.2

/-- `template_dependency_structure()`. -/
def DependencyStructure.bits (s : DependencyStructure) : List Bool :=
  toBits 6 s.templateIdOffset ++ (toBits 5 (s.dtCnt - 1) ++ (layerBits s.first s.others ++
    (s.templates.flatMap (fun t => dtiBits t.dtis) ++
      (s.templates.flatMap (fun t => fdiffBits t.fdiffs) ++
        (nsBits (s.dtCnt + 1) s.chainCnt ++ (chainBits s ++ resolutionBits s.resolutions))))))

/-! ## Packets -/

/-- `extended_descriptor_fields()`, and what the frame defines by itself. A custom frame diff
is its size, in units of four bits, and its value less one. -/
structure ExtendedFields where
  attached : Option DependencyStructure
  activeDecodeTargets : Option ℕ
  customDtis : Option (List ℕ)
  customFdiffs : Option (List (ℕ × ℕ))
  customChains : Option (List ℕ)

structure Packet where
  startOfFrame : Bool
  endOfFrame : Bool
  templateId : ℕ
  frameNumber : ℕ
  extended : Option ExtendedFields

def Packet.attached (p : Packet) : Option DependencyStructure := p.extended.bind (·.attached)

/-- The frame diffs of a packet that names `t`. -/
def Packet.fdiffs (p : Packet) (t : DependencyTemplate) : List ℕ :=
  match p.extended.bind (·.customFdiffs) with
  | some fdiffs => fdiffs.map fun f => f.2 + 1
  | none => t.fdiffs

/-- The chain diffs of a packet that names `t`. -/
def Packet.chainDiffs (p : Packet) (t : DependencyTemplate) : List ℕ :=
  (p.extended.bind (·.customChains)).getD t.chainFdiffs

/-- What extended fields may say under the structure `s`. -/
structure ExtendedFields.Fits (e : ExtendedFields) (s : DependencyStructure) : Prop where
  activeDecodeTargets : ∀ mask ∈ e.activeDecodeTargets, mask < 2 ^ s.dtCnt
  dtis : ∀ dtis ∈ e.customDtis, dtis.length = s.dtCnt ∧ ∀ d ∈ dtis, d < 4
  fdiffs : ∀ fdiffs ∈ e.customFdiffs, ∀ f ∈ fdiffs, (1 ≤ f.1 ∧ f.1 ≤ 3) ∧ f.2 < 2 ^ (4 * f.1)
  chains : ∀ chains ∈ e.customChains, chains.length = s.chainCnt ∧ ∀ c ∈ chains, c < 2 ^ 8

structure Packet.Fits (p : Packet) (s : DependencyStructure) : Prop where
  templateId_lt : p.templateId < 64
  frameNumber_lt : p.frameNumber < 2 ^ 16
  extended : ∀ e ∈ p.extended, e.Fits s

/-- `mandatory_descriptor_fields()`. -/
def Packet.mandatoryBits (p : Packet) : List Bool :=
  [p.startOfFrame, p.endOfFrame] ++ (toBits 6 p.templateId ++ toBits 16 p.frameNumber)

def ExtendedFields.flagBits (e : ExtendedFields) : List Bool :=
  [e.attached.isSome] ++ ([e.activeDecodeTargets.isSome] ++ ([e.customDtis.isSome] ++
    ([e.customFdiffs.isSome] ++ [e.customChains.isSome])))

/-- `frame_fdiffs()`. -/
def frameFdiffBits (fdiffs : List (ℕ × ℕ)) : List Bool :=
  fdiffs.flatMap (fun f => toBits 2 f.1 ++ toBits (4 * f.1) f.2) ++ toBits 2 0

/-- The bitmask of the active decode targets, and `frame_dependency_definition()`. -/
def ExtendedFields.frameBits (e : ExtendedFields) (s : DependencyStructure) : List Bool :=
  e.activeDecodeTargets.elim [] (toBits s.dtCnt) ++ (e.customDtis.elim [] dtiBits ++
    (e.customFdiffs.elim [] frameFdiffBits ++
      e.customChains.elim [] fun chains => chains.flatMap (toBits 8)))

/-- A packet's descriptor, under the structure `s`. -/
def Packet.bits (p : Packet) (s : DependencyStructure) : List Bool :=
  p.mandatoryBits ++ p.extended.elim [] fun e =>
    e.flagBits ++ (e.attached.elim [] DependencyStructure.bits ++ e.frameBits s)

/-- The bytes carry the packet: its bits and a padding of zeros. The extended fields are there
exactly in an extension of more than three bytes. -/
def Encodes (s : DependencyStructure) (p : Packet) (ext : List UInt8) : Prop :=
  (∃ padding, bytesBits ext = p.bits s ++ List.replicate padding false) ∧
    (3 < ext.length ↔ p.extended.isSome)

/-- A sequence of well-formed packets and of the bytes that carry them, where `active` is the
structure attached last. -/
def Stream : Option DependencyStructure → List (Packet × List UInt8) → Prop
  | _, [] => True
  | active, (p, ext) :: stream =>
    ∃ s t, p.attached.or active = some s ∧ s.template p.templateId = some t ∧ p.Fits s ∧
      Encodes s p ext ∧ Stream (some s) stream

/-- What a packet says that names `t`. -/
def Packet.describe (p : Packet) (t : DependencyTemplate) : Descriptor where
  frameNumber := p.frameNumber
  temporalLayer := t.temporalId
  isKeyframe := p.fdiffs t = []
  attachesStructure := p.attached.isSome
  chainDiffs := p.chainDiffs t

/-- What the packets of a sequence say, each under the structure attached last. -/
def descriptors : Option DependencyStructure → List Packet → List Descriptor
  | _, [] => []
  | active, p :: packets =>
    let s := p.attached.or active
    ((s.bind (·.template p.templateId)).map p.describe).toList ++ descriptors s packets

end VoiceHub.Sfu.Dd
