import Kinewright.Lib.Stretches
import Kinewright.Model.ClipData
import Kinewright.Timeline.Layers
import Kinewright.Transcript.Words

/-!
# Cutting words out of clips

`transcript_edit.rs`: the source ranges that are removed with the selected words of the timeline. Each maximal run of selected
words of a clip gives up one range; of the words around it only the two next to it are looked at.
-/

namespace Kinewright.Transcript

open Model Fallible Stretches List Int64
open Option hiding mem_map

/-- `TranscriptCutRange`. -/
structure TranscriptCutRange where
  track : TrackId
  clip : ClipId
  sourceRange : FrameRange
deriving DecidableEq

/-- A word with its index in the timeline. -/
abbrev Indexed := TimelineTranscriptWord × ℕ

/-- The order of the words of a clip, `(source_start, source_end, index)`. -/
def Indexed.le (x y : Indexed) : Prop :=
  x.1.sourceStart < y.1.sourceStart ∨ x.1.sourceStart = y.1.sourceStart ∧
    (x.1.sourceEnd < y.1.sourceEnd ∨ x.1.sourceEnd = y.1.sourceEnd ∧ x.2 ≤ y.2)

instance : DecidableRel Indexed.le := fun _ _ => inferInstanceAs (Decidable (_ ∨ _))

/-- The words of a clip, sorted. -/
def clipWords (words : List TimelineTranscriptWord) (clip : ClipId) : List Indexed :=
  (words.zipIdx.filter fun x => x.1.clip = clip).insertionSort Indexed.le

/-- The selected indices of words. -/
def selection (words : List TimelineTranscriptWord) (selectedIndices : List ℕ) : List ℕ :=
  selectedIndices.filter fun index => index < words.length

/-- The clips of the selected words, each once. -/
def selectedClips (words : List TimelineTranscriptWord) (selected : List ℕ) : List ClipId :=
  List.distinct [] ((words.zipIdx.filter fun x => x.2 ∈ selected).map fun x => x.1.clip)

/-- The range that a run of selected words gives up, when it has a frame. -/
def runCut (id : ClipId) (clip : Clip) (margin : TimeCode) (s : Stretch Indexed) : Option (List TranscriptCutRange) :=
  let previousRetainedEnd := match s.before.getLast? with
    | none => clip.sourceRange.start
    | some previous => previous.1.sourceEnd
  let reached := match s.after.head? with
    | some next => min (max s.last.1.sourceEnd (saturatingSub next.1.sourceStart margin)) next.1.sourceStart
    | none => saturatingAdd s.last.1.sourceEnd margin
  match clamp (max s.first.1.sourceStart previousRetainedEnd) clip.sourceRange.start clip.sourceRange.stop,
    clamp reached clip.sourceRange.start clip.sourceRange.stop with
  | some cutStart, some cutEnd =>
    let cutStart := min cutStart clip.sourceRange.stop
    some (if cutStart < cutEnd then [⟨s.first.1.track, id, ⟨cutStart, cutEnd⟩⟩] else [])
  | _, _ => none

/-- The ranges that the runs of one clip give up. -/
def clipCuts (document : Document) (words : List TimelineTranscriptWord) (selected : List ℕ) (id : ClipId) :
    Option (List TranscriptCutRange) :=
  match document.clip id with
  | none => some []
  | some clip =>
    match document.asset clip.asset with
    | none => some []
    | some asset =>
      gather (runCut id clip (silenceCutMarginFrames asset.fps))
        (stretches (fun x => x.2 ∈ selected) (clipWords words id))

/-- `transcript_cut_ranges_for_indices`, without the assertion that only a debug build makes. -/
def transcriptCutRangesForIndices (document : Document) (words : List TimelineTranscriptWord)
    (selectedIndices : List ℕ) : Option (List TranscriptCutRange) :=
  let selected := selection words selectedIndices
  if selected = [] then some [] else gather (clipCuts document words selected) (selectedClips words selected)

/-! ## What a cut may take -/

/-- The word is spoken at the frame of the source. -/
def TimelineTranscriptWord.Speaks (word : TimelineTranscriptWord) (frame : TimeCode) : Prop :=
  word.sourceStart ≤ frame ∧ frame < word.sourceEnd

def Within (range : FrameRange) (frame : TimeCode) : Prop := range.start ≤ frame ∧ frame < range.stop

section

variable (words : List TimelineTranscriptWord) (selectedIndices : List ℕ)

/-- A word of the clip that is not selected. -/
def Retained (id : ClipId) (x : Indexed) : Prop := words[x.2]? = some x.1 ∧ x.2 ∉ selectedIndices ∧ x.1.clip = id

def Selected (id : ClipId) (x : Indexed) : Prop := words[x.2]? = some x.1 ∧ x.2 ∈ selectedIndices ∧ x.1.clip = id

/-- A frame of a selected word that goes with it: no retained word of the clip is spoken at it, and none that follows the
word begins before it. -/
structure Owed (id : ClipId) (clip : Clip) (x : Indexed) (frame : TimeCode) : Prop where
  spoken : x.1.Speaks frame
  inside : Within clip.sourceRange frame
  free : ∀ y, Retained words selectedIndices id y → ¬ y.1.Speaks frame
  precedes : ∀ y, Retained words selectedIndices id y → x.le y → frame < y.1.sourceStart

/-- The cuts take no retained speech and all that goes with the selected words. -/
structure Lawful (document : Document) (cuts : List TranscriptCutRange) : Prop where
  clear : ∀ cut ∈ cuts, ∀ y, Retained words selectedIndices cut.clip y →
    ∀ frame, Within cut.sourceRange frame → ¬ y.1.Speaks frame
  nonempty : ∀ cut ∈ cuts, cut.sourceRange.start < cut.sourceRange.stop
  ordered : ∀ id, (cuts.filter fun cut => cut.clip = id).Pairwise fun cut later =>
    cut.sourceRange.stop ≤ later.sourceRange.start
  inside : ∀ cut ∈ cuts, ∃ clip, document.clip cut.clip = some clip ∧
    clip.sourceRange.start ≤ cut.sourceRange.start ∧ cut.sourceRange.stop ≤ clip.sourceRange.stop
  covered : ∀ id clip x frame, document.clip id = some clip → Selected words selectedIndices id x →
    Owed words selectedIndices id clip x frame → ∃ cut ∈ cuts, cut.clip = id ∧ Within cut.sourceRange frame

end

/-- The frame is before the end of the run, or before the margin in front of the word that follows it. -/
def Reached (margin : TimeCode) (s : Stretch Indexed) (frame : TimeCode) : Prop :=
  match s.after.head? with
  | some next => frame < s.last.1.sourceEnd ∨ frame < saturatingSub next.1.sourceStart margin
  | none => frame < saturatingAdd s.last.1.sourceEnd margin

/-- A frame of the clip between the two words next to the run. -/
structure Between (clip : Clip) (margin : TimeCode) (s : Stretch Indexed) (frame : TimeCode) : Prop where
  inside : Within clip.sourceRange frame
  first : s.first.1.sourceStart ≤ frame
  previous : ∀ previous ∈ s.before.getLast?, previous.1.sourceEnd ≤ frame
  next : ∀ next ∈ s.after.head?, frame < next.1.sourceStart
  reached : Reached margin s frame

/-- A run of selected words into which no other word of the clip reaches than the two next to it, and out of which no word of
it reaches past its last one. -/
structure Separate (document : Document) (words : List TimelineTranscriptWord) (selectedIndices : List ℕ) (id : ClipId)
    (clip : Clip) (s : Stretch Indexed) : Prop where
  pooled : ∀ x ∈ s.run, ∀ frame, Owed words selectedIndices id clip x frame → (document.asset clip.asset).isSome
  upright : (document.asset clip.asset).isSome → clip.sourceRange.start ≤ clip.sourceRange.stop
  earlier : ∀ asset, document.asset clip.asset = some asset → ∀ y ∈ s.before, y.2 ∉ selectedIndices →
    ∀ frame, Between clip (silenceCutMarginFrames asset.fps) s frame → y.1.sourceEnd ≤ frame
  later : ∀ asset, document.asset clip.asset = some asset → ∀ x ∈ s.run,
    ∀ frame, Owed words selectedIndices id clip x frame → Reached (silenceCutMarginFrames asset.fps) s frame

/-! ## The range of one run -/

/-- On the frames between the bounds a clamped frame compares as the frame itself. -/
theorem exists_clamp {low high : TimeCode} (h : low ≤ high) (x : TimeCode) :
    ∃ c, clamp x low high = some c ∧ low ≤ c ∧ c ≤ high ∧
      ∀ frame, low ≤ frame → frame < high → (c ≤ frame ↔ x ≤ frame) := by
  refine ⟨_, if_pos h, ?_⟩
  simp only [le_iff_toInt_le, lt_iff_toInt_lt] at *
  split
  · exact ⟨by omega, h, fun frame _ _ => by omega⟩
  · split
    · exact ⟨h, by omega, fun frame _ _ => by omega⟩
    · exact ⟨by omega, by omega, fun frame _ _ => Iff.rfl⟩

theorem lt_min_iff {a b frame : TimeCode} : frame < min a b ↔ frame < a ∧ frame < b := by
  rw [lt_iff_toInt_lt, toInt_min, lt_iff_toInt_lt, lt_iff_toInt_lt]
  omega

theorem lt_max_iff {a b frame : TimeCode} : frame < max a b ↔ frame < a ∨ frame < b := by
  rw [lt_iff_toInt_lt, toInt_max, lt_iff_toInt_lt, lt_iff_toInt_lt]
  omega

theorem max_le_iff {a b frame : TimeCode} : max a b ≤ frame ↔ a ≤ frame ∧ b ≤ frame := by
  rw [le_iff_toInt_le, toInt_max, le_iff_toInt_le, le_iff_toInt_le]
  omega

section

variable  {words : List TimelineTranscriptWord} {selectedIndices : List ℕ} {id : ClipId} {clip : Clip}
  {margin : TimeCode} {s t : Stretch Indexed}

/-- The range of a run is the frames between the two words next to it. -/
theorem runCut_eq (id : ClipId) (margin : TimeCode) (s : Stretch Indexed)
    (hclip : clip.sourceRange.start ≤ clip.sourceRange.stop) :
    ∃ range : FrameRange, runCut id clip margin s =
        some (if range.start < range.stop then [⟨s.first.1.track, id, range⟩] else []) ∧
      clip.sourceRange.start ≤ range.start ∧ range.stop ≤ clip.sourceRange.stop ∧
      ∀ frame, Within range frame ↔ Between clip margin s frame := by
  let previousEnd : TimeCode := match s.before.getLast? with
    | none => clip.sourceRange.start
    | some previous => previous.1.sourceEnd
  let reached : TimeCode := match s.after.head? with
    | some next => min (max s.last.1.sourceEnd (saturatingSub next.1.sourceStart margin)) next.1.sourceStart
    | none => saturatingAdd s.last.1.sourceEnd margin
  obtain ⟨cutStart, hstart, hlow, hhigh, hstartIff⟩ := exists_clamp hclip (max s.first.1.sourceStart previousEnd)
  obtain ⟨cutEnd, hend, -, hendHigh, hendIff⟩ := exists_clamp hclip reached
  have hmin : min cutStart clip.sourceRange.stop = cutStart := by
    rw [← toInt_inj, toInt_min]
    rw [le_iff_toInt_le] at hhigh
    omega
  refine ⟨⟨cutStart, cutEnd⟩, ?_, hlow, hendHigh, fun frame => ?_⟩
  · unfold runCut
    simp only [previousEnd, reached] at hstart hend
    simp [hstart, hend, hmin]
  have hprevious : clip.sourceRange.start ≤ frame →
      (previousEnd ≤ frame ↔ ∀ previous ∈ s.before.getLast?, previous.1.sourceEnd ≤ frame) := by
    intro hframe
    cases h : s.before.getLast? with
    | none => simpa [previousEnd, h] using hframe
    | some previous => simp [previousEnd, h]
  have hreached : frame < reached ↔
      (∀ next ∈ s.after.head?, frame < next.1.sourceStart) ∧ Reached margin s frame := by
    unfold Reached
    cases h : s.after.head? with
    | none => simp [reached, h]
    | some next => simp [reached, h, lt_min_iff, lt_max_iff, and_comm]
  have hends : Within clip.sourceRange frame → (Within ⟨cutStart, cutEnd⟩ frame ↔
      (s.first.1.sourceStart ≤ frame ∧ previousEnd ≤ frame) ∧ frame < reached) := by
    intro hinside
    rw [Within, hstartIff frame hinside.1 hinside.2, max_le_iff, ← Int64.not_le, ← Int64.not_le,
      hendIff frame hinside.1 hinside.2]
  constructor
  · intro hwithin
    have hinside : Within clip.sourceRange frame :=
      ⟨Int64.le_trans hlow hwithin.1, Int64.lt_of_lt_of_le hwithin.2 hendHigh⟩
    obtain ⟨⟨hfirst, hback⟩, hahead⟩ := (hends hinside).mp hwithin
    exact ⟨hinside, hfirst, (hprevious hinside.1).mp hback, (hreached.mp hahead).1, (hreached.mp hahead).2⟩
  · intro h
    exact (hends h.inside).mpr ⟨⟨h.first, (hprevious h.inside.1).mpr h.previous⟩, hreached.mpr ⟨h.next, h.reached⟩⟩

theorem runCut_eq_none (hclip : ¬ clip.sourceRange.start ≤ clip.sourceRange.stop) : runCut id clip margin s = none := by
  unfold runCut clamp
  simp [if_neg hclip]

/-! ## The words of a clip -/

theorem le_total (x y : Indexed) : x.le y ∨ y.le x := by
  unfold Indexed.le
  simp only [lt_iff_toInt_lt, ← toInt_inj]
  omega

variable {x y : Indexed}

theorem le_trans {z : Indexed} (hxy : x.le y) (hyz : y.le z) : x.le z := by
  unfold Indexed.le at *
  simp only [lt_iff_toInt_lt, ← toInt_inj] at *
  omega

theorem start_le (h : x.le y) : x.1.sourceStart ≤ y.1.sourceStart := by
  unfold Indexed.le at h
  simp only [lt_iff_toInt_lt, ← toInt_inj, le_iff_toInt_le] at *
  omega

theorem mem_clipWords : x ∈ clipWords words id ↔ words[x.2]? = some x.1 ∧ x.1.clip = id := by
  rw [clipWords, mem_insertionSort, mem_filter, mem_zipIdx_iff_getElem?, decide_eq_true_iff]

theorem clipWords_sorted : (clipWords words id).Pairwise Indexed.le := by
  have htotal : Std.Total Indexed.le := ⟨le_total⟩
  have htrans : IsTrans Indexed Indexed.le := ⟨fun _ _ _ => le_trans⟩
  exact pairwise_insertionSort _ _

/-- The maximal runs of selected words of a clip. -/
def runs (words : List TimelineTranscriptWord) (selectedIndices : List ℕ) (id : ClipId) : List (Stretch Indexed) :=
  stretches (fun x => x.2 ∈ selection words selectedIndices) (clipWords words id)

theorem selected_of_run (hs : s ∈ runs words selectedIndices id) (hx : x ∈ s.run) :
    Selected words selectedIndices id x := by
  have hmax := maximal hs
  have hword : x ∈ clipWords words id := by
    rw [← hmax.whole]
    simp [hx]
  have hsel := hmax.all x hx
  rw [decide_eq_true_iff, selection, mem_filter] at hsel
  exact ⟨(mem_clipWords.mp hword).1, hsel.1, (mem_clipWords.mp hword).2⟩

theorem retained_of_not_selection (hx : x ∈ clipWords words id)
    (hsel : decide (x.2 ∈ selection words selectedIndices) = false) : Retained words selectedIndices id x := by
  obtain ⟨hword, hid⟩ := mem_clipWords.mp hx
  have hlt : x.2 < words.length := (List.getElem?_eq_some_iff.mp hword).1
  rw [decide_eq_false_iff_not, selection, mem_filter, decide_eq_true_iff] at hsel
  exact ⟨hword, fun h => hsel ⟨h, hlt⟩, hid⟩

section

variable (hs : s ∈ runs words selectedIndices id)

include hs

/-- A retained word stands before the run or after it. -/
theorem before_or_after (hy : Retained words selectedIndices id y) : y ∈ s.before ∨ y ∈ s.after := by
  have hword : y ∈ clipWords words id := mem_clipWords.mpr ⟨hy.1, hy.2.2⟩
  rw [← (maximal hs).whole, mem_append, mem_append] at hword
  rcases hword with (hbefore | hrun) | hafter
  · exact .inl hbefore
  · exact absurd (selected_of_run hs hrun).2.1 hy.2.1
  · exact .inr hafter

theorem before_le (hy : y ∈ s.before) (hx : x ∈ s.run) : y.le x := by
  have hsorted : (clipWords words id).Pairwise Indexed.le := clipWords_sorted
  rw [← (maximal hs).whole, append_assoc, pairwise_append] at hsorted
  exact hsorted.2.2 y hy x (mem_append_left _ hx)

theorem le_after (hx : x ∈ s.run) (hy : y ∈ s.after) : x.le y := by
  have hsorted : (clipWords words id).Pairwise Indexed.le := clipWords_sorted
  rw [← (maximal hs).whole, pairwise_append] at hsorted
  exact hsorted.2.2 x (mem_append_right _ hx) y hy

end

theorem le_refl (x : Indexed) : x.le x := (le_total x x).elim (fun h => h) fun h => h

section

variable (hs : s ∈ runs words selectedIndices id)

include hs

theorem first_le (hx : x ∈ s.run) : s.first.le x := by
  have hsorted : (clipWords words id).Pairwise Indexed.le := clipWords_sorted
  rw [← (maximal hs).whole, append_assoc, pairwise_append, pairwise_append] at hsorted
  have hrun : (s.first :: s.run.tail).Pairwise Indexed.le := by
    rw [Stretch.first, cons_head_tail]
    exact hsorted.2.1.1
  rw [← cons_head_tail s.run_ne] at hx
  rcases mem_cons.mp hx with rfl | hx
  · exact le_refl _
  · exact (pairwise_cons.mp hrun).1 x hx

theorem next_le {next : Indexed} (hnext : next ∈ s.after.head?) (hy : y ∈ s.after) : next.le y := by
  have hsorted : (clipWords words id).Pairwise Indexed.le := clipWords_sorted
  rw [← (maximal hs).whole, pairwise_append] at hsorted
  obtain ⟨rest, hrest⟩ := head?_eq_some_iff.mp hnext
  rw [hrest] at hy hsorted
  rcases mem_cons.mp hy with rfl | hy
  · exact le_refl _
  · exact (pairwise_cons.mp hsorted.2.1).1 y hy

theorem retained_previous (hy : y ∈ s.before.getLast?) : Retained words selectedIndices id y := by
  refine retained_of_not_selection ?_ ((maximal hs).opens y hy)
  rw [← (maximal hs).whole]
  simp [mem_of_getLast? hy]

theorem retained_next (hy : y ∈ s.after.head?) : Retained words selectedIndices id y := by
  refine retained_of_not_selection ?_ ((maximal hs).closes y hy)
  rw [← (maximal hs).whole]
  simp [mem_of_head? hy]

end

/-! ## What the range of one run takes -/

/-- A range is clear of the retained words exactly when those before the run end before it. -/
theorem clear_iff (hs : s ∈ runs words selectedIndices id) :
    (∀ y, Retained words selectedIndices id y → ∀ frame, Between clip margin s frame → ¬ y.1.Speaks frame) ↔
      ∀ y ∈ s.before, y.2 ∉ selectedIndices → ∀ frame, Between clip margin s frame → y.1.sourceEnd ≤ frame := by
  constructor
  · intro h y hy hsel frame hframe
    have hword : y ∈ clipWords words id := by
      rw [← (maximal hs).whole]
      simp [hy]
    have hstart := start_le (before_le hs hy s.first_mem)
    have hclear := h y ⟨(mem_clipWords.mp hword).1, hsel, (mem_clipWords.mp hword).2⟩ frame hframe
    exact Int64.not_lt.mp fun hlt => hclear ⟨Int64.le_trans hstart hframe.first, hlt⟩
  · intro h y hy frame hframe hspeaks
    rcases before_or_after hs hy with hbefore | hafter
    · exact Int64.not_le.mpr hspeaks.2 (h y hbefore hy.2.1 frame hframe)
    · obtain ⟨next, hnext⟩ : ∃ next, s.after.head? = some next := by
        rw [← isSome_iff_exists, isSome_head?]
        exact ne_nil_of_mem hafter
      have hlt := hframe.next next hnext
      have hle := start_le (next_le hs hnext hafter)
      exact Int64.not_le.mpr hlt (Int64.le_trans hle hspeaks.1)

variable {frame : TimeCode}

section

variable (hs : s ∈ runs words selectedIndices id)

include hs

/-- What goes with a word of the run lies between the two words next to the run. -/
theorem between_iff (hx : x ∈ s.run)
    (howed : Owed words selectedIndices id clip x frame) : Between clip margin s frame ↔ Reached margin s frame := by
  refine ⟨Between.reached, fun hreached => ⟨howed.inside, ?_, fun y hy => ?_, fun y hy => ?_, hreached⟩⟩
  · exact Int64.le_trans (start_le (first_le hs hx)) howed.spoken.1
  · have hstart := start_le (before_le hs (mem_of_getLast? hy) hx)
    have hfree := howed.free y (retained_previous hs hy)
    exact Int64.not_lt.mp fun hlt => hfree ⟨Int64.le_trans hstart howed.spoken.1, hlt⟩
  · exact howed.precedes y (retained_next hs hy) (le_after hs hx (mem_of_head? hy))

/-- The frames of an earlier run are before those of a later one. -/
theorem between_lt (hlater : Later (fun x => decide (x.2 ∈ selection words selectedIndices)) s t) :
    ∃ next ∈ s.after.head?, next.1.sourceStart ≤ t.first.1.sourceStart := by
  obtain ⟨next, between, -, hafter⟩ := hlater
  have hnext : next ∈ s.after.head? := by simp [hafter]
  refine ⟨next, hnext, start_le (next_le hs hnext ?_)⟩
  rw [hafter]
  simp [t.first_mem]

/-- The frames of an earlier range of a clip are before those of a later one. -/
theorem Between.lt_of_later
    (hlater : Later (fun x => decide (x.2 ∈ selection words selectedIndices)) s t) {frame' : TimeCode}
    (h : Between clip margin s frame) (h' : Between clip margin t frame') : frame < frame' := by
  obtain ⟨next, hnext, hle⟩ := between_lt hs hlater
  exact Int64.lt_of_lt_of_le (h.next next hnext) (Int64.le_trans hle h'.first)

end

/-! ## The cuts of a clip -/

theorem clip_of_runCut {cut : TranscriptCutRange} (h : cut ∈ (runCut id clip margin s).getD []) : cut.clip = id := by
  by_cases hclip : clip.sourceRange.start ≤ clip.sourceRange.stop
  · obtain ⟨range, heq, -⟩ := runCut_eq id margin s hclip
    rw [heq] at h
    split at h
    · rw [mem_singleton.mp h]
    · cases h
  · rw [runCut_eq_none hclip] at h
    cases h

/-- What is said of the cuts of a run is said of its frames. -/
structure Takes (clip : Clip) (margin : TimeCode) (id : ClipId) (s : Stretch Indexed) (cut : TranscriptCutRange) :
    Prop where
  clip_eq : cut.clip = id
  nonempty : cut.sourceRange.start < cut.sourceRange.stop
  low : clip.sourceRange.start ≤ cut.sourceRange.start
  high : cut.sourceRange.stop ≤ clip.sourceRange.stop
  frames : ∀ frame, Within cut.sourceRange frame ↔ Between clip margin s frame

theorem takes_of_mem (hclip : clip.sourceRange.start ≤ clip.sourceRange.stop) {cut : TranscriptCutRange}
    (h : cut ∈ (runCut id clip margin s).getD []) : Takes clip margin id s cut := by
  obtain ⟨range, heq, hlow, hhigh, hframes⟩ := runCut_eq id margin s hclip
  rw [heq] at h
  split at h
  · rename_i hlt
    obtain rfl := mem_singleton.mp h
    exact ⟨rfl, hlt, hlow, hhigh, hframes⟩
  · cases h

/-- A frame between the two words next to a run is cut. -/
theorem exists_cut (id : ClipId) (hclip : clip.sourceRange.start ≤ clip.sourceRange.stop)
    (h : Between clip margin s frame) :
    ∃ cut ∈ (runCut id clip margin s).getD [], Within cut.sourceRange frame := by
  obtain ⟨range, heq, -, -, hframes⟩ := runCut_eq id margin s hclip
  have hwithin := (hframes frame).mpr h
  have hlt : range.start < range.stop := Int64.lt_of_le_of_lt hwithin.1 hwithin.2
  rw [heq, if_pos hlt]
  exact ⟨_, mem_singleton.mpr rfl, hwithin⟩

/-- The ranges of one clip come in order. -/
theorem ordered_of_runs (hclip : clip.sourceRange.start ≤ clip.sourceRange.stop) :
    ((runs words selectedIndices id).flatMap fun s => (runCut id clip margin s).getD []).Pairwise
      fun cut later => cut.sourceRange.stop ≤ later.sourceRange.start := by
  rw [pairwise_flatMap]
  refine ⟨fun s _ => ?_, (stretches_pairwise _).imp_of_mem fun hs _ hlater cut hcut later hcut' => ?_⟩
  · obtain ⟨range, heq, -⟩ := runCut_eq id margin s hclip
    rw [heq]
    split <;> simp
  · have htakes := takes_of_mem hclip hcut
    have htakes' := takes_of_mem hclip hcut'
    -- otherwise the first frame of the later range is one of the earlier range
    by_contra hnot
    have hfirst := (htakes'.frames _).mp ⟨Int64.le_refl _, htakes'.nonempty⟩
    have hbegin := (htakes.frames _).mp ⟨Int64.le_refl _, htakes.nonempty⟩
    have hlt := hbegin.lt_of_later hs hlater hfirst
    have hagain := (htakes.frames _).mp ⟨Int64.le_of_lt hlt, Int64.not_le.mp hnot⟩
    exact Int64.lt_irrefl (hagain.lt_of_later hs hlater hfirst)

/-- The run of which the frames are those of a word that goes with another run is that run. -/
theorem eq_of_owed (hs : s ∈ runs words selectedIndices id) (ht : t ∈ runs words selectedIndices id)
    (hx : x ∈ s.run) (howed : Owed words selectedIndices id clip x frame) (h : Between clip margin t frame) :
    t = s := by
  rcases stretches_trichotomy hs ht with heq | hlater | hlater
  · exact heq.symm
  · obtain ⟨next, hnext, hle⟩ := between_lt hs hlater
    have hlt := howed.precedes next (retained_next hs hnext) (le_after hs hx (mem_of_head? hnext))
    exact absurd (Int64.le_trans hle h.first) (Int64.not_le.mpr hlt)
  · obtain ⟨next, hnext, hle⟩ := between_lt ht hlater
    have hstart := Int64.le_trans (start_le (first_le hs hx)) howed.spoken.1
    exact absurd (Int64.le_trans hle hstart) (Int64.not_le.mpr (h.next next hnext))

end

/-! ## The cuts of a selection -/

section

variable {document : Document} {words : List TimelineTranscriptWord} {selectedIndices : List ℕ} {id : ClipId} {clip : Clip}
  {cuts : List TranscriptCutRange}

theorem mem_selectedClips : id ∈ selectedClips words (selection words selectedIndices) ↔
    ∃ x, Selected words selectedIndices id x := by
  rw [selectedClips, mem_distinct, mem_map]
  constructor
  · rintro (h | ⟨x, hx, rfl⟩)
    · cases h
    · rw [mem_filter, mem_zipIdx_iff_getElem?, decide_eq_true_iff, selection, mem_filter] at hx
      exact ⟨x, hx.1, hx.2.1, rfl⟩
  · rintro ⟨x, hword, hsel, rfl⟩
    have hlt : x.2 < words.length := (List.getElem?_eq_some_iff.mp hword).1
    refine .inr ⟨x, ?_, rfl⟩
    rw [mem_filter, mem_zipIdx_iff_getElem?, decide_eq_true_iff, selection, mem_filter]
    exact ⟨hword, hsel, decide_eq_true hlt⟩

/-- A selected word is in a run. -/
theorem exists_run {x : Indexed} (hx : Selected words selectedIndices id x) :
    ∃ s ∈ runs words selectedIndices id, x ∈ s.run := by
  have hlt : x.2 < words.length := (List.getElem?_eq_some_iff.mp hx.1).1
  refine exists_stretch (mem_clipWords.mpr ⟨hx.1, hx.2.2⟩) ?_
  rw [decide_eq_true_iff, selection, mem_filter]
  exact ⟨hx.2.1, decide_eq_true hlt⟩

/-- The cuts are those of the selected clips, one clip after the other. -/
theorem transcriptCutRangesForIndices_eq : transcriptCutRangesForIndices document words selectedIndices = some cuts ↔
      (∀ id ∈ selectedClips words (selection words selectedIndices),
        (clipCuts document words (selection words selectedIndices) id).isSome) ∧
      cuts = (selectedClips words (selection words selectedIndices)).flatMap fun id =>
        (clipCuts document words (selection words selectedIndices) id).getD [] := by
  rw [transcriptCutRangesForIndices, ← gather_eq_some]
  split
  · rename_i hnone
    have hclips : selectedClips words (selection words selectedIndices) = [] := by
      refine eq_nil_iff_forall_not_mem.mpr fun id hid => ?_
      obtain ⟨x, hword, hsel, -⟩ := mem_selectedClips.mp hid
      have hmem : x.2 ∈ selection words selectedIndices :=
        mem_filter.mpr ⟨hsel, decide_eq_true (List.getElem?_eq_some_iff.mp hword).1⟩
      rw [hnone] at hmem
      cases hmem
    rw [hclips]
    rfl
  · rfl

/-- The cuts of a clip, when it is there with its asset. -/
theorem clipCuts_eq {asset : MediaAsset} (hclip : document.clip id = some clip)
    (hasset : document.asset clip.asset = some asset) :
    clipCuts document words (selection words selectedIndices) id =
      gather (runCut id clip (silenceCutMarginFrames asset.fps)) (runs words selectedIndices id) := by
  simp [clipCuts, hclip, hasset, runs]

theorem clipCuts_cases (document : Document) (words : List TimelineTranscriptWord) (selectedIndices : List ℕ)
    (id : ClipId) : clipCuts document words (selection words selectedIndices) id = some [] ∨
      ∃ clip asset, document.clip id = some clip ∧ document.asset clip.asset = some asset ∧
        clipCuts document words (selection words selectedIndices) id =
          gather (runCut id clip (silenceCutMarginFrames asset.fps)) (runs words selectedIndices id) := by
  cases hclip : document.clip id with
  | none => exact .inl (by simp [clipCuts, hclip])
  | some clip =>
    cases hasset : document.asset clip.asset with
    | none => exact .inl (by simp [clipCuts, hclip, hasset])
    | some asset => exact .inr ⟨clip, asset, rfl, hasset, clipCuts_eq hclip hasset⟩

/-- The cuts are those of the runs of the clips that are there with their assets. -/
theorem mem_cuts (h : transcriptCutRangesForIndices document words selectedIndices = some cuts)
    {cut : TranscriptCutRange} : cut ∈ cuts ↔ ∃ id clip asset, document.clip id = some clip ∧
      document.asset clip.asset = some asset ∧ ∃ s ∈ runs words selectedIndices id,
        cut ∈ (runCut id clip (silenceCutMarginFrames asset.fps) s).getD [] := by
  obtain ⟨hall, rfl⟩ := transcriptCutRangesForIndices_eq.mp h
  rw [mem_flatMap]
  constructor
  · rintro ⟨id, hid, hcut⟩
    rcases clipCuts_cases document words selectedIndices id with hnone | ⟨clip, asset, hclip, hasset, heq⟩
    · rw [hnone] at hcut
      cases hcut
    · obtain ⟨found, hfound⟩ := isSome_iff_exists.mp (hall id hid)
      rw [hfound, getD_some] at hcut
      rw [heq, gather_eq_some] at hfound
      rw [hfound.2, mem_flatMap] at hcut
      exact ⟨id, clip, asset, hclip, hasset, hcut⟩
  · rintro ⟨id, clip, asset, hclip, hasset, s, hs, hcut⟩
    have hid : id ∈ selectedClips words (selection words selectedIndices) :=
      mem_selectedClips.mpr ⟨s.first, selected_of_run hs s.first_mem⟩
    obtain ⟨found, hfound⟩ := isSome_iff_exists.mp (hall id hid)
    refine ⟨id, hid, ?_⟩
    rw [hfound, getD_some]
    rw [clipCuts_eq hclip hasset, gather_eq_some] at hfound
    rw [hfound.2, mem_flatMap]
    exact ⟨s, hs, hcut⟩

/-- The clips of the selected words that are there with their assets have a range that is not inverted. -/
def Upright (document : Document) (words : List TimelineTranscriptWord) (selectedIndices : List ℕ) : Prop :=
  ∀ id clip asset, document.clip id = some clip → document.asset clip.asset = some asset →
    (∃ x, Selected words selectedIndices id x) → clip.sourceRange.start ≤ clip.sourceRange.stop

theorem upright_of_eq (h : transcriptCutRangesForIndices document words selectedIndices = some cuts) :
    Upright document words selectedIndices := by
  rintro id clip asset hclip hasset ⟨x, hx⟩
  obtain ⟨hall, -⟩ := transcriptCutRangesForIndices_eq.mp h
  obtain ⟨found, hfound⟩ := isSome_iff_exists.mp (hall id (mem_selectedClips.mpr ⟨x, hx⟩))
  rw [clipCuts_eq hclip hasset, gather_eq_some] at hfound
  obtain ⟨s, hs, -⟩ := exists_run hx
  by_contra hnot
  have hsome := hfound.1 s hs
  rw [runCut_eq_none hnot] at hsome
  cases hsome

theorem exists_cuts (h : Upright document words selectedIndices) :
    ∃ cuts, transcriptCutRangesForIndices document words selectedIndices = some cuts := by
  refine ⟨_, transcriptCutRangesForIndices_eq.mpr ⟨fun id hid => ?_, rfl⟩⟩
  rcases clipCuts_cases document words selectedIndices id with hnone | ⟨clip, asset, hclip, hasset, heq⟩
  · rw [hnone]
    rfl
  · have hupright := h id clip asset hclip hasset (mem_selectedClips.mp hid)
    rw [heq]
    refine isSome_iff_exists.mpr ⟨_, gather_eq_some.mpr ⟨fun s _ => ?_, rfl⟩⟩
    obtain ⟨range, hrange, -⟩ := runCut_eq id (silenceCutMarginFrames asset.fps) s hupright
    rw [hrange]
    rfl

section

variable (h : transcriptCutRangesForIndices document words selectedIndices = some cuts)

include h

theorem takes_of_cut {cut : TranscriptCutRange} (hcut : cut ∈ cuts) : ∃ clip asset, document.clip cut.clip = some clip ∧
      document.asset clip.asset = some asset ∧ ∃ s ∈ runs words selectedIndices cut.clip,
        Takes clip (silenceCutMarginFrames asset.fps) cut.clip s cut := by
  obtain ⟨id, clip, asset, hclip, hasset, s, hs, hmem⟩ := (mem_cuts h).mp hcut
  obtain rfl := clip_of_runCut hmem
  have hupright := upright_of_eq h _ clip asset hclip hasset ⟨s.first, selected_of_run hs s.first_mem⟩
  exact ⟨clip, asset, hclip, hasset, s, hs, takes_of_mem hupright hmem⟩

/-- A frame between the two words next to a run is in a cut of the clip. -/
theorem cut_of_between
    {asset : MediaAsset} (hclip : document.clip id = some clip) (hasset : document.asset clip.asset = some asset)
    {s : Stretch Indexed} (hs : s ∈ runs words selectedIndices id) {frame : TimeCode}
    (hframe : Between clip (silenceCutMarginFrames asset.fps) s frame) :
    ∃ cut ∈ cuts, cut.clip = id ∧ Within cut.sourceRange frame := by
  have hupright := upright_of_eq h _ clip asset hclip hasset ⟨s.first, selected_of_run hs s.first_mem⟩
  obtain ⟨cut, hcut, hwithin⟩ := exists_cut id hupright hframe
  exact ⟨cut, (mem_cuts h).mpr ⟨id, clip, asset, hclip, hasset, s, hs, hcut⟩, clip_of_runCut hcut, hwithin⟩

/-- The cuts of one clip come in order: its runs do, and no other clip gives it cuts. -/
theorem ordered_of_eq (id : ClipId) : (cuts.filter fun cut => cut.clip = id).Pairwise fun cut later =>
      cut.sourceRange.stop ≤ later.sourceRange.start := by
  have hupright := upright_of_eq h
  obtain ⟨hall, rfl⟩ := transcriptCutRangesForIndices_eq.mp h
  have hnodup : (selectedClips words (selection words selectedIndices)).Nodup := nodup_distinct nodup_nil _
  -- the cuts that a clip of the selection adds
  have hcuts : ∀ id' ∈ selectedClips words (selection words selectedIndices),
      ((clipCuts document words (selection words selectedIndices) id').getD []).Pairwise
          (fun cut later => cut.sourceRange.stop ≤ later.sourceRange.start) ∧
        ∀ cut ∈ (clipCuts document words (selection words selectedIndices) id').getD [], cut.clip = id' := by
    intro id' hid
    rcases clipCuts_cases document words selectedIndices id' with hnone | ⟨clip, asset, hclip, hasset, heq⟩
    · rw [hnone]
      exact ⟨.nil, fun cut hcut => absurd hcut not_mem_nil⟩
    · obtain ⟨found, hfound⟩ := isSome_iff_exists.mp (hall id' hid)
      rw [hfound]
      rw [heq, gather_eq_some] at hfound
      rw [hfound.2]
      refine ⟨ordered_of_runs (hupright id' clip asset hclip hasset (mem_selectedClips.mp hid)), fun cut hcut => ?_⟩
      obtain ⟨s, -, hcut⟩ := mem_flatMap.mp hcut
      exact clip_of_runCut hcut
  rw [pairwise_filter, pairwise_flatMap]
  refine ⟨fun id' hid => (hcuts id' hid).1.imp fun hle _ _ => hle,
    hnodup.imp_of_mem fun hid hid' hne cut hcut later hlater heq heq' => ?_⟩
  rw [decide_eq_true_iff] at heq heq'
  have hclip := (hcuts _ hid).2 cut hcut
  have hclip' := (hcuts _ hid').2 later hlater
  exact absurd (hclip.symm.trans (heq.trans (heq'.symm.trans hclip'))) hne

end

end

/-- A long word and a short one that stay, and a word inside the long one that is selected. -/
def nestedWords : List TimelineTranscriptWord :=
  [{ text := "well", speaker := some "A", asset := 1, track := 1, clip := 1, sourceStart := 10, sourceEnd := 30
     projectStart := 5, projectEnd := 30 },
   { text := "so", speaker := some "B", asset := 1, track := 1, clip := 1, sourceStart := 12, sourceEnd := 16
     projectStart := 8, projectEnd := 13 },
   { text := "um", speaker := some "B", asset := 1, track := 1, clip := 1, sourceStart := 20, sourceEnd := 24
     projectStart := 18, projectEnd := 23 }]

end Kinewright.Transcript
