import Kinewright.Model.Document

/-!
# Words of a transcript

`media.rs`, `transcript_edit.rs`: the words of the transcripts of the assets, each where a clip plays it.
-/

namespace Kinewright.Transcript

open Model

/-- `TranscriptWord`: a recognized word, with the label of the speaker that diarization gave it. -/
structure TranscriptWord where
  text : String
  sourceStart : TimeCode
  sourceEnd : TimeCode
  speaker : Option String
deriving DecidableEq

structure AssetTranscript where
  asset : AssetId
  contentSha256 : String
  sourceFps : Rational
  words : List TranscriptWord
deriving DecidableEq

/-- `TimelineTranscriptWord`. -/
structure TimelineTranscriptWord where
  text : String
  speaker : Option String
  asset : AssetId
  track : TrackId
  clip : ClipId
  sourceStart : TimeCode
  sourceEnd : TimeCode
  projectStart : TimeCode
  projectEnd : TimeCode
deriving DecidableEq

/-- The frames of a part of a second, rounded. -/
def roundedPart (parts : ℕ) (fps : Rational) : TimeCode :=
  if fps.IsValid then
    let denominator := fps.denominator.toNat * parts
    (tryFrom ((fps.numerator.toNat + denominator / 2) / denominator : ℕ)).getD Int64.maxValue
  else 0

theorem tryFrom_natCast_nonneg (n : ℕ) : 0 ≤ ((tryFrom n).getD Int64.maxValue).toInt := by
  cases h : tryFrom n with
  | none => decide
  | some frames =>
    rw [Option.getD_some, tryFrom_eq_some.mp h]
    exact Int.natCast_nonneg n

theorem roundedPart_nonneg (parts : ℕ) (fps : Rational) : 0 ≤ (roundedPart parts fps).toInt := by
  unfold roundedPart
  split
  · exact tryFrom_natCast_nonneg _
  · decide

theorem le_saturatingAdd (frame : TimeCode) {margin : TimeCode} (h : 0 ≤ margin.toInt) :
    frame ≤ saturatingAdd frame margin := by
  unfold saturatingAdd Int64.ofIntClamp
  rw [Int64.le_iff_toInt_le]
  have hhigh := frame.toInt_le
  split
  · split
    · rw [Int64.toInt_ofIntLE]
      omega
    · exact hhigh
  · omega

/-- `silence_cut_margin_frames`. -/
def silenceCutMarginFrames (sourceFps : Rational) : TimeCode := roundedPart 10 sourceFps

/-- `Ord::clamp`. It panics when the bounds are inverted. -/
def clamp (frame low high : TimeCode) : Option TimeCode :=
  if low ≤ high then some (if frame < low then low else if high < frame then high else frame) else none

end Kinewright.Transcript
