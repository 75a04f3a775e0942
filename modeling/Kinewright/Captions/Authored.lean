import Kinewright.Captions.Cues
import Kinewright.Lib.Divisions

/-!
# Captions with the words of a script

`captions.rs`: the words of a script take the place of the words that were recognized. Each sentence of it gets some of the
cues, close to those where its words were recognized, and is divided among them where that reads best.
-/

namespace Kinewright.Captions

open Fallible

/-- The plan is refused with an error, or the code panics. -/
inductive Failure
  | error (error : CaptionPlanError)
  | panic
deriving DecidableEq

def misaligned : Failure := .error .authoredScriptAlignment

/-- The saturating arithmetic of `usize` and `u64`. -/
def saturate (n : ℕ) : ℕ := min n (2 ^ 64 - 1)

/-- `usize::abs_diff`. -/
def absDiff (a b : ℕ) : ℕ := (a - b) + (b - a)

/-- `usize::clamp`, where the bounds are in order. -/
def clamp (n low high : ℕ) : ℕ := if n < low then low else if high < n then high else n

/-- `scaled_boundaries`, from a cue on. -/
def scaledBoundariesFrom (authoredWordCount rawWordCount previous rawCumulative : ℕ) : List ℕ → Except Failure (List ℕ)
  | [] => .ok []
  | count :: counts => do
    let rawCumulative := saturate (rawCumulative + count)
    let minimum := previous + 1
    let maximum := authoredWordCount - counts.length
    refuse (maximum < minimum) misaligned
    let scaled := saturate (saturate (rawCumulative * authoredWordCount) + rawWordCount / 2) / rawWordCount
    let boundary := clamp scaled minimum maximum
    let later ← scaledBoundariesFrom authoredWordCount rawWordCount boundary rawCumulative counts
    .ok (boundary :: later)

/-- `scaled_boundaries`: where the cues would end in the script, if it were recognized at an even pace. -/
def scaledBoundaries (rawWordCounts : List ℕ) (authoredWordCount rawWordCount : ℕ) : Except Failure (List ℕ) :=
  scaledBoundariesFrom authoredWordCount rawWordCount 0 0 rawWordCounts

/-- Where the sentences of the words end. -/
def sentenceEnds (words : List String) : List ℕ :=
  let ends := words.zipIdx.filterMap fun x => if endsSentence x.1 then some (x.2 + 1) else none
  if ends.getLast? = some words.length then ends else ends ++ [words.length]

/-- Which cue each sentence ends with. A sentence takes the cue that ends nearest to it, so that every sentence after it has a
cue and every cue a word. -/
def sentenceCueEnds (cues words : ℕ) (rawBoundaries : List ℕ) (previousCueEnd previousSentenceEnd : ℕ) :
    List ℕ → Except Failure (List ℕ)
  | [] => .ok []
  | [_] => .ok [cues]
  | sentenceEnd :: next :: rest => do
    let remainingSentences := (next :: rest).length
    let remainingWords := words - sentenceEnd
    let sentenceWords := sentenceEnd - previousSentenceEnd
    let minimum := max (previousCueEnd + 1) (cues - remainingWords)
    let maximum := min (min (cues - remainingSentences) (previousCueEnd + sentenceWords)) (cues - 1)
    refuse (maximum < minimum) misaligned
    let cueEnd ← okOr misaligned ((List.range' minimum (maximum + 1 - minimum)).argmin fun candidate =>
      absDiff (rawBoundaries.getD (candidate - 1) 0) sentenceEnd)
    let later ← sentenceCueEnds cues words rawBoundaries cueEnd sentenceEnd (next :: rest)
    .ok (cueEnd :: later)

/-! ## The division of a sentence -/

section

variable (table : CharTable) (words : List String) (cueCount : ℕ) (targets : List ℕ)

/-- The characters of the words from `start` to `stop`. -/
def charactersBetween (start stop : ℕ) : ℕ := phraseCharacters ((words.drop start).take (stop - start))

def overCharacters (start stop : ℕ) : ℕ := charactersBetween words start stop - maxCaptionCharacters

/-- How far the cue is from an even share of the sentence. -/
def ragged (start stop : ℕ) : ℕ :=
  absDiff (charactersBetween words start stop) ((phraseCharacters words + cueCount - 1) / cueCount)

def targetDistance (used stop : ℕ) : ℕ := absDiff stop (targets.getD (used - 1) 0)

def boundaryCost (stop : ℕ) : ℕ :=
  if stop = words.length then 0 else boundaryPenalty table (words.getD (stop - 1) "") (words.getD stop "")

/-- The cost of the first `used` cues, from that of one cue less. -/
def extend (used start stop previous : ℕ) : ℕ :=
  let excess := overCharacters words start stop
  let ragged := ragged words cueCount start stop
  saturate (saturate (saturate (saturate (previous + saturate (saturate (excess * excess) * 500)) + saturate (ragged * ragged)) +
    saturate (targetDistance targets used stop * 12)) + boundaryCost table words stop)

/-- `u64::MAX / 4`, for a slot that is not reached. -/
def unreachable : ℕ := (2 ^ 64 - 1) / 4

/-- `semantic_boundaries`. -/
def semanticBoundaries : Except Failure (List ℕ) := do
  refuse (cueCount = 0 ∨ words.length < cueCount ∨ targets.length ≠ cueCount) misaligned
  let last := Divisions.slot (extend table words cueCount targets) unreachable cueCount words.length cueCount words.length
  refuse (last.cost = unreachable) misaligned
  okOr misaligned (Divisions.walkBack (extend table words cueCount targets) unreachable cueCount words.length cueCount
    words.length)

end

/-! ## The script in the cues -/

/-- The words in front of which the cues of a sentence should end, as the recognized words were spread. -/
def sentenceTargets (rawBoundaries : List ℕ) (cueStart sentenceStart cueCount wordCount : ℕ) : List ℕ :=
  (List.range' 1 (cueCount - 1)).map (fun offset =>
    clamp (rawBoundaries.getD (cueStart + offset - 1) 0 - sentenceStart) offset (wordCount - (cueCount - offset))) ++ [wordCount]

section

variable (table : CharTable) (words : List String) (rawBoundaries : List ℕ)

/-- The boundaries of the cues behind the first one, from a sentence on. -/
def finalBoundaries (sentenceStart cueStart : ℕ) : List (ℕ × ℕ) → Except Failure (List ℕ)
  | [] => .ok []
  | (sentenceEnd, cueEnd) :: rest => do
    let cueCount := cueEnd - cueStart
    let wordCount := sentenceEnd - sentenceStart
    -- `clamp` panics when its bounds are inverted
    refuse ((List.range' 1 (cueCount - 1)).any fun offset => wordCount - (cueCount - offset) < offset) .panic
    let semantic ← semanticBoundaries table ((words.drop sentenceStart).take wordCount) cueCount
      (sentenceTargets rawBoundaries cueStart sentenceStart cueCount wordCount)
    let later ← finalBoundaries sentenceEnd cueEnd rest
    .ok ((semantic.drop 1).map (sentenceStart + ·) ++ later)

end

/-- The words that were recognized in the cues. -/
def rawWordCounts (cues : List CaptionCue) : List ℕ := cues.map fun cue => (Text.splitWhitespace cue.text).length

/-- `authored_caption_cues`. -/
def authoredCaptionCues (table : CharTable) (cues : List CaptionCue) (script : String) : Except Failure (List CaptionCue) := do
  refuse (cues = []) (.error .noCues)
  let words := Text.splitWhitespace script
  refuse (words = []) (.error .emptyAuthoredScript)
  refuse (words.length < cues.length) misaligned
  refuse (cues.length < (sentenceEnds words).length) misaligned
  let rawTotal := (rawWordCounts cues).sum
  refuse (rawTotal = 0) misaligned
  let rawBoundaries ← scaledBoundaries (rawWordCounts cues) words.length rawTotal
  let cueEnds ← sentenceCueEnds cues.length words.length rawBoundaries 0 0 (sentenceEnds words)
  let boundaries ← finalBoundaries table words rawBoundaries 0 0 ((sentenceEnds words).zip cueEnds)
  .ok (List.zipWith (fun cue phrase => { cue with text := joined phrase }) cues (Divisions.cutFrom words 0 boundaries))

end Kinewright.Captions
