import Mathlib.Data.List.MinMax
import Kinewright.Captions.Language
import Kinewright.Lib.Chunks
import Kinewright.Transcript.Words

/-!
# Caption cues from the words of a timeline

`captions.rs`: the words are laid out in phrases that break off where the clip, the asset or the speaker changes, behind a
sentence, at a pause, and where a line gets full. A caption is then held until half a second behind its last word, but not
past the frame on which the next one opens.
-/

namespace Kinewright.Captions

open Model Transcript

/-- `CaptionCue`: a half-open interval of project frames, with its text. -/
structure CaptionCue where
  start : TimeCode
  stop : TimeCode
  text : String
deriving DecidableEq

inductive CaptionPlanError
  | noCues
  | emptyAuthoredScript
  | authoredScriptAlignment
  | trackIdExhausted
  | clipIdExhausted
  | invalidCueDuration
deriving DecidableEq

structure CaptionWord where
  text : String
  start : TimeCode
  stop : TimeCode
  asset : AssetId
  clip : ClipId
  speaker : Option String
deriving DecidableEq

/-- `half_second_frames`. -/
def halfSecondFrames (fps : Rational) : TimeCode := roundedPart 2 fps

/-- The caption word of a timeline word, when it has a text and a positive duration. -/
def captionWord (word : TimelineTranscriptWord) : Option CaptionWord :=
  let text := Text.trim word.text
  if text ≠ "" ∧ word.projectStart < word.projectEnd then
    some ⟨text, word.projectStart, word.projectEnd, word.asset, word.clip, word.speaker⟩
  else none

/-- The words come from different clips, assets or speakers. -/
def sourceChange (previous next : CaptionWord) : Bool :=
  previous.asset ≠ next.asset || previous.clip ≠ next.clip || previous.speaker ≠ next.speaker

section

variable (table : CharTable)

/-- The word with the full stop that the word after it calls for. -/
def punctuated (previous next : CaptionWord) : CaptionWord :=
  if endsSentence previous.text then previous
  else
    let likelyStart := startsWithUppercase table next.text &&
      (4 ≤ saturatingSub next.start previous.stop || sourceChange previous next) && likelySentenceStarter next.text
    if sourceChange previous next || likelyStart then { previous with text := previous.text.push '.' } else previous

/-- `infer_sentence_punctuation`. -/
def inferSentencePunctuation : List CaptionWord → List CaptionWord
  | previous :: next :: rest => punctuated table previous next :: inferSentencePunctuation (next :: rest)
  | words => words

/-! ## Phrases -/

/-- How many words fit on a line, from the count that does. -/
def farthestFrom (texts : List String) : ℕ → ℕ → ℕ
  | 0, farthest => farthest
  | fuel + 1, farthest =>
    if farthest < texts.length ∧ phraseCharacters (texts.take (farthest + 1)) ≤ maxCaptionCharacters then
      farthestFrom texts fuel (farthest + 1)
    else farthest

/-- How many words fit on a line. One always does. -/
def farthest (texts : List String) : ℕ := farthestFrom texts texts.length 1

/-- What it costs to end the line behind the first `candidate` words. -/
def lineCost (texts : List String) (candidate : ℕ) : ℕ :=
  boundaryPenalty table (texts.getD (candidate - 1) "") (texts.getD candidate "") + (farthest texts - candidate) * 8 +
    (if phraseCharacters (texts.take candidate) < 12 then 1 else 0) * 120

/-- How many words the next cue takes. The line ends where that costs least, among the last places that fit. -/
def lineEnd (words : List CaptionWord) : ℕ :=
  let texts := words.map (·.text)
  if farthest texts = texts.length then farthest texts
  else
    let searchStart := max 1 (farthest texts - 4)
    ((List.range' searchStart (farthest texts + 1 - searchStart)).argmin (lineCost table texts)).getD (farthest texts)

/-- The words of the cues that `push_semantic_cues` makes of a segment. -/
def phrases (segment : List CaptionWord) : List (List CaptionWord) := Chunks.chunks (lineEnd table) segment

/-- The next word starts a new segment. -/
def breakBefore (hold : TimeCode) (previous next : CaptionWord) : Bool :=
  hold < saturatingSub next.start previous.stop || sourceChange previous next

/-- The phrases of the words, one for each cue. -/
def layout (hold : TimeCode) (words : List CaptionWord) : List (List CaptionWord) :=
  (Chunks.segments (breakBefore hold) (fun word => endsSentence word.text) words).flatMap (phrases table)

/-- The cue of a phrase. -/
def cueOf (phrase : List CaptionWord) : Option CaptionCue :=
  match phrase.head?, phrase.getLast? with
  | some first, some last => some ⟨first.start, last.stop, joined (phrase.map (·.text))⟩
  | _, _ => none

/-- The cues with their reading hold, each cut off where the next one opens. -/
def held (hold : TimeCode) : List CaptionCue → List CaptionCue
  | [] => []
  | [cue] => [{ cue with stop := saturatingAdd cue.stop hold }]
  | cue :: next :: rest =>
    { cue with stop := min (saturatingAdd cue.stop hold) next.start } :: held hold (next :: rest)

/-- The phrases of a timeline's words. -/
def laidOut (words : List TimelineTranscriptWord) (projectFps : Rational) : List (List CaptionWord) :=
  layout table (halfSecondFrames projectFps) (inferSentencePunctuation table (words.filterMap captionWord))

/-- `caption_cues`. -/
def captionCues (words : List TimelineTranscriptWord) (projectFps : Rational) : List CaptionCue :=
  (held (halfSecondFrames projectFps) ((laidOut table words projectFps).filterMap cueOf)).filter fun cue =>
    cue.start < cue.stop

end

end Kinewright.Captions
