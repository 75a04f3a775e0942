import Mathlib.Data.List.Basic

/-!
# Colour descriptions

`color.rs`: the colour metadata of a source and of a project. A tag that this version does not name
is kept with its spelling.
-/

namespace Kinewright.Model

/-- What `color_tag!` declares: the named variants, or the spelling of a value introduced by a newer
version. -/
inductive ColorTag (Name : Type)
  | named (name : Name)
  | other (value : String)
deriving DecidableEq

inductive PrimariesName
  | unknown | srgb | bt709 | bt2020 | displayP3 | dciP3 | smpte170M | smpte240M | bt470M | bt470Bg
  | film
deriving DecidableEq

inductive TransferName
  | unknown | srgb | bt709 | bt1886 | linear | gamma22 | gamma28 | smpte170M | smpte2084
  | aribStdB67 | log | logC | log3G10
deriving DecidableEq

inductive MatrixName
  | unknown | identity | rgb | bt709 | bt2020Ncl | bt2020Cl | smpte170M | smpte240M | ycgco
  | chromaDerivedNcl | chromaDerivedCl | ictcp
deriving DecidableEq

inductive RangeName
  | unknown | full | limited
deriving DecidableEq

inductive WhitePointName
  | unknown | d50 | d55 | d60 | d65 | dci
deriving DecidableEq

inductive ProvenanceName
  | unknown | containerMetadata | streamMetadata | sidecarMetadata | userOverride | inferred
  | applicationDefault | agentAssumption
deriving DecidableEq

/-- `ColorBitDepth` up to its own equality, in which 8, 10, 12 and 16 bits have one spelling. -/
inductive ColorBitDepth
  | unknown
  | integer (bits : UInt16)
  | float16
  | float32
  | other (value : String)
deriving DecidableEq

structure ColorDescription where
  primaries : ColorTag PrimariesName
  transfer : ColorTag TransferName
  matrix : ColorTag MatrixName
  range : ColorTag RangeName
  whitePoint : ColorTag WhitePointName
  bitDepth : ColorBitDepth
  confidenceBasisPoints : UInt16
  provenance : ColorTag ProvenanceName
deriving DecidableEq

inductive PipelineStateName
  | legacy | managedSdrV1
deriving DecidableEq

structure ColorContext where
  pipelineState : ColorTag PipelineStateName
  working : ColorDescription
  monitoring : ColorDescription
  delivery : ColorDescription
deriving DecidableEq

end Kinewright.Model
