import Kinewright.Lib.Spans
import Kinewright.Transcript.Words

/-!
# Cutting a silence

`silence.rs`: a silence that the detector found is cut only where no recognized word is near.
-/

namespace Kinewright.Transcript

open Model Int64 List TranscriptWord

structure SilenceSpan where
  sourceStart : TimeCode
  sourceEnd : TimeCode
deriving DecidableEq

/-- `shrink_silence_span_for_cutting`. -/
def shrinkSilenceSpanForCutting (span : SilenceSpan) (sourceFps : Rational) : Option SilenceSpan :=
  let margin := silenceCutMarginFrames sourceFps
  let duration := saturatingSub span.sourceEnd span.sourceStart
  if span.sourceStart < 0 ∨ duration ≤ Int64.ofIntClamp (margin.toInt * 2) then none
  else some ⟨saturatingAdd span.sourceStart margin, saturatingSub span.sourceEnd margin⟩

/-- The words that a cut keeps away from. -/
def TranscriptWord.isProtected (word : TranscriptWord) : Bool := 0 ≤ word.sourceStart && word.sourceStart < word.sourceEnd

/-- What a word leaves of a span. -/
def protect (margin : TimeCode) (word : TranscriptWord) (candidate : SilenceSpan) : List SilenceSpan :=
  let protectedStart := saturatingSub word.sourceStart margin
  let protectedEnd := saturatingAdd word.sourceEnd margin
  if protectedEnd ≤ candidate.sourceStart ∨ candidate.sourceEnd ≤ protectedStart then [candidate]
  else
    (if candidate.sourceStart < protectedStart then [⟨candidate.sourceStart, min protectedStart candidate.sourceEnd⟩] else []) ++
      if protectedEnd < candidate.sourceEnd then [⟨max protectedEnd candidate.sourceStart, candidate.sourceEnd⟩] else []

/-- What the words leave of spans, until nothing is left. -/
def protectAll (margin : TimeCode) : List SilenceSpan → List TranscriptWord → List SilenceSpan
  | cuttable, [] => cuttable
  | cuttable, word :: words => let next := cuttable.flatMap (protect margin word)
    if next.isEmpty then next else protectAll margin next words

/-- `shrink_silence_span_for_cutting_with_transcript`. -/
def shrinkSilenceSpanForCuttingWithTranscript (span : SilenceSpan) (sourceFps : Rational) :
    Option (List TranscriptWord) → List SilenceSpan
  | none => (shrinkSilenceSpanForCutting span sourceFps).toList
  | some words => if span.sourceStart < 0 ∨ span.sourceEnd ≤ span.sourceStart then [] else
      (protectAll (silenceCutMarginFrames sourceFps) [span] (words.filter isProtected)).mergeSort
        fun span next => span.sourceStart < next.sourceStart || (span.sourceStart == next.sourceStart && span.sourceEnd ≤ next.sourceEnd)

/-! ## As intervals of frames -/

def SilenceSpan.bounds (span : SilenceSpan) : ℤ × ℤ := (span.sourceStart.toInt, span.sourceEnd.toInt)

theorem bounds_injective : Function.Injective SilenceSpan.bounds := by
  intro span span' h
  obtain ⟨hstart, hend⟩ := Prod.ext_iff.mp h
  rw [SilenceSpan.mk.injEq]
  exact ⟨toInt_inj.mp hstart, toInt_inj.mp hend⟩

theorem toInt_min (a b : TimeCode) : (min a b).toInt = min a.toInt b.toInt := by
  rw [show min a b = if a ≤ b then a else b from rfl, min_def]
  simp only [le_iff_toInt_le]
  split <;> rfl

theorem toInt_max (a b : TimeCode) : (max a b).toInt = max a.toInt b.toInt := by
  rw [show max a b = if a ≤ b then b else a from rfl, max_def]
  simp only [le_iff_toInt_le]
  split <;> rfl

theorem bounds_protect (margin : TimeCode) (word : TranscriptWord) (candidate : SilenceSpan) :
    (protect margin word candidate).map SilenceSpan.bounds =
      Spans.carve (saturatingSub word.sourceStart margin).toInt (saturatingAdd word.sourceEnd margin).toInt candidate.bounds := by
  simp only [protect, Spans.carve, SilenceSpan.bounds, le_iff_toInt_le, lt_iff_toInt_lt, apply_ite (List.map _),
    map_append, map_cons, map_nil, toInt_min, toInt_max]
  exact if_congr Iff.rfl rfl (congrArg₂ _ (if_congr Iff.rfl rfl rfl) (if_congr Iff.rfl rfl rfl))

/-- A frame keeps the margin from every word. -/
def Unprotected (margin : TimeCode) (words : List TranscriptWord) (frame : ℤ) : Prop :=
  ∀ word ∈ words, word.isProtected = true →
    ¬(word.sourceStart.toInt - margin.toInt ≤ frame ∧ frame < word.sourceEnd.toInt + margin.toInt)

section Margin

variable {margin : TimeCode} (hmargin : 0 ≤ margin.toInt)

include hmargin

/-- The saturation at the last frame protects no fewer frames before it. -/
theorem carve_bounds {word : TranscriptWord} (hword : word.isProtected = true) :
    (saturatingSub word.sourceStart margin).toInt = word.sourceStart.toInt - margin.toInt ∧
      (saturatingSub word.sourceStart margin).toInt < (saturatingAdd word.sourceEnd margin).toInt ∧
      ∀ frame : ℤ, frame < Int64.maxValue.toInt →
        (frame < (saturatingAdd word.sourceEnd margin).toInt ↔ frame < word.sourceEnd.toInt + margin.toInt) := by
  obtain ⟨hstart, hlt⟩ : 0 ≤ word.sourceStart ∧ word.sourceStart < word.sourceEnd := by
    simpa [isProtected] using hword
  rw [le_iff_toInt_le, toInt_zero] at hstart
  rw [lt_iff_toInt_lt] at hlt
  have hmax := margin.toInt_lt
  have hmax' := word.sourceStart.toInt_lt
  have hsub := saturatingSub_eq Int64.minValue Int64.maxValue (a := word.sourceStart) (b := margin)
    (by rw [toInt_minValue]; omega) (by rw [toInt_maxValue]; omega)
  have hadd : (saturatingAdd word.sourceEnd margin).toInt = min (word.sourceEnd.toInt + margin.toInt) Int64.maxValue.toInt := by
    have hlow : Int64.minValue.toInt ≤ word.sourceEnd.toInt + margin.toInt := by
      rw [toInt_minValue]
      omega
    rw [saturatingAdd, Int64.ofIntClamp, dif_pos hlow]
    split
    · rename_i hfits
      rw [toInt_ofIntLE, min_eq_left hfits]
    · rw [min_eq_right (by omega)]
  have hend := word.sourceEnd.toInt_le
  refine ⟨hsub, ?_, fun frame hframe => ?_⟩
  · omega
  · omega

/-- The words leave of the runs of a predicate those where every word is far too. By induction on the words. -/
theorem runs_protectAll {p : ℤ → Prop} {start stop : ℤ} (hstop : stop ≤ Int64.maxValue.toInt) {words : List TranscriptWord}
    (hwords : ∀ word ∈ words, word.isProtected = true) {cuttable : List SilenceSpan}
    (h : Spans.Runs p start stop (cuttable.map SilenceSpan.bounds)) :
    Spans.Runs (fun frame => p frame ∧ Unprotected margin words frame) start stop
      ((protectAll margin cuttable words).map SilenceSpan.bounds) := by
  induction words generalizing p cuttable with
  | nil => exact h.congr fun frame _ _ => (and_iff_left (forall_mem_nil _)).symm
  | cons word words ih =>
    obtain ⟨hword, hrest⟩ := forall_mem_cons.mp hwords
    obtain ⟨hlow, hlt, hhigh⟩ := carve_bounds hmargin hword
    have hnext := h.carve hlt
    rw [flatMap_map, ← funext fun candidate => bounds_protect margin word candidate, ← map_flatMap] at hnext
    have hsplit : ∀ frame, start ≤ frame → frame < stop →
        ((p frame ∧ ¬((saturatingSub word.sourceStart margin).toInt ≤ frame ∧
          frame < (saturatingAdd word.sourceEnd margin).toInt)) ∧ Unprotected margin words frame ↔
        p frame ∧ Unprotected margin (word :: words) frame) := by
      intro frame _ hframe
      rw [hlow, hhigh frame (by omega), Unprotected, Unprotected, forall_mem_cons, and_assoc]
      simp [hword]
    have hruns := (ih hrest hnext).congr hsplit
    rw [protectAll]
    split
    · rename_i hempty
      rw [List.isEmpty_iff.mp hempty] at hnext ⊢
      refine .none fun frame hfrom hto hframe => ?_
      obtain ⟨run, hrun, -⟩ := (hnext.covers frame).mpr ⟨hfrom, hto, ((hsplit frame hfrom hto).mpr hframe).1⟩
      cases hrun
    · exact hruns

end Margin

/-! ## What may be cut -/

/-- The spans are the runs of the frames of a silence that keep the margin from every word, if the silence does not start before the
first frame. They are sorted as they are found. -/
theorem runs_shrink (span : SilenceSpan) (sourceFps : Rational) (words : List TranscriptWord) :
    Spans.Runs (fun frame => 0 ≤ span.sourceStart.toInt ∧ Unprotected (silenceCutMarginFrames sourceFps) words frame)
      span.sourceStart.toInt span.sourceEnd.toInt
      ((shrinkSilenceSpanForCuttingWithTranscript span sourceFps (some words)).map SilenceSpan.bounds) := by
  rw [shrinkSilenceSpanForCuttingWithTranscript]
  split
  · rename_i hnone
    rw [lt_iff_toInt_lt, le_iff_toInt_le] at hnone
    refine .none fun frame hfrom hto hframe => ?_
    rcases hnone with hbefore | hempty
    · exact hframe.1.not_gt hbefore
    · omega
  · rename_i hsome
    rw [lt_iff_toInt_lt, le_iff_toInt_le] at hsome
    obtain ⟨hstart, hlt⟩ := not_or.mp hsome
    have hwhole : Spans.Runs (fun _ => 0 ≤ span.sourceStart.toInt) span.sourceStart.toInt span.sourceEnd.toInt
        ([span].map SilenceSpan.bounds) := .whole (not_le.mp hlt) fun _ _ _ => not_lt.mp hstart
    have hprotected : ∀ word ∈ words.filter isProtected, word.isProtected = true :=
      fun word hword => (mem_filter.mp hword).2
    have hruns := runs_protectAll (roundedPart_nonneg 10 sourceFps) span.sourceEnd.toInt_le hprotected hwhole
    rw [mergeSort_of_pairwise]
    · refine hruns.congr fun frame _ _ => and_congr_right fun _ => forall_congr' fun word => ?_
      rw [mem_filter, and_imp]
      exact forall_congr' fun _ => ⟨fun h hword => h hword hword, fun h hword _ => h hword⟩
    · refine (pairwise_map.mp hruns.apart).imp_of_mem fun {piece next} hpiece _ hbefore => ?_
      obtain ⟨-, hproper, -⟩ := hruns.within _ (mem_map_of_mem hpiece)
      have hless : piece.sourceStart < next.sourceStart := lt_iff_toInt_lt.mpr (hproper.trans hbefore)
      simp [hless]

/-- A silence is cut exactly where every word is at least the margin away: in proper spans with gaps between them, the same for every
order of the words. -/
theorem silenceCuts_exact (span : SilenceSpan) (sourceFps : Rational) (words : List TranscriptWord) :
    Spans.Runs (fun frame => 0 ≤ span.sourceStart.toInt ∧ Unprotected (silenceCutMarginFrames sourceFps) words frame)
        span.sourceStart.toInt span.sourceEnd.toInt
        ((shrinkSilenceSpanForCuttingWithTranscript span sourceFps (some words)).map SilenceSpan.bounds) ∧
      (∀ piece ∈ shrinkSilenceSpanForCuttingWithTranscript span sourceFps (some words), ∀ word ∈ words,
        word.isProtected = true →
          piece.sourceEnd.toInt + (silenceCutMarginFrames sourceFps).toInt ≤ word.sourceStart.toInt ∨
            word.sourceEnd.toInt + (silenceCutMarginFrames sourceFps).toInt ≤ piece.sourceStart.toInt) ∧
      ∀ words', words.Perm words' → shrinkSilenceSpanForCuttingWithTranscript span sourceFps (some words') =
        shrinkSilenceSpanForCuttingWithTranscript span sourceFps (some words) := by
  have hruns := runs_shrink span sourceFps words
  refine ⟨hruns, fun piece hpiece word hword hprotected => ?_, fun words' hperm => ?_⟩
  · obtain ⟨-, hproper, -⟩ := hruns.within _ (mem_map_of_mem hpiece)
    have hclear : ∀ frame, piece.sourceStart.toInt ≤ frame → frame < piece.sourceEnd.toInt →
        ¬(word.sourceStart.toInt - (silenceCutMarginFrames sourceFps).toInt ≤ frame ∧
          frame < word.sourceEnd.toInt + (silenceCutMarginFrames sourceFps).toInt) := fun frame hfrom hto =>
      ((hruns.covers frame).mp ⟨_, mem_map_of_mem hpiece, hfrom, hto⟩).2.2.2 word hword hprotected
    obtain ⟨-, hspoken⟩ : 0 ≤ word.sourceStart ∧ word.sourceStart < word.sourceEnd := by
      simpa [isProtected] using hprotected
    rw [lt_iff_toInt_lt] at hspoken
    have hmargin := roundedPart_nonneg 10 sourceFps
    rw [← silenceCutMarginFrames] at hmargin
    dsimp only [SilenceSpan.bounds] at hproper
    by_contra hnear
    -- the later of the two starts is a frame of the piece that the word protects
    refine hclear (max piece.sourceStart.toInt (word.sourceStart.toInt - (silenceCutMarginFrames sourceFps).toInt)) ?_ ?_ ?_ <;> omega
  · refine map_injective_iff.mpr bounds_injective ?_
    refine Spans.Runs.unique ((runs_shrink span sourceFps words').congr fun frame _ _ => and_congr_right fun _ => ?_) hruns
    exact forall_congr' fun word => by rw [hperm.mem_iff]

/-- A silence that starts before the first frame is not cut, wherever its words are. -/
theorem silence_before_zero : ¬ ∀ (span : SilenceSpan) (sourceFps : Rational) (words : List TranscriptWord),
    Spans.Runs (Unprotected (silenceCutMarginFrames sourceFps) words) span.sourceStart.toInt span.sourceEnd.toInt
      ((shrinkSilenceSpanForCuttingWithTranscript span sourceFps (some words)).map SilenceSpan.bounds) := by
  intro h
  obtain ⟨run, hrun, -⟩ := ((h ⟨-5, 10⟩ ⟨30, 1⟩ []).covers 0).mpr ⟨by decide, by decide, forall_mem_nil _⟩
  cases hrun

end Kinewright.Transcript
